import MlibDevel.Lib.Octets
import MlibDevel.Lib.ShiftRegister

/-!
# The SPI master (`spi_master.v`, `wb_spi_master.v`)

A write to register 0 of the Wishbone side is a command: its chip selects and the data register go
to the serial side with a trigger.  The serial side clocks the bits through, and shows with `dvld`
that they are there; the Wishbone side takes them, counts the event and acknowledges.

The widths are `NBITS = w + 1`, `NCLKDIVBITS = m + 1` and `NCSBITS = k`.
-/

namespace MlibDevel.SpiMaster

open Lib

/-- `IDLE` to `AWAIT_ACK` -/
inductive State
  | idle
  | waitCs
  | wait
  | start
  | clkRise
  | clkFall
  | fin
  | awaitAck
  deriving DecidableEq, Repr

/-- The registers of `spi_master`. -/
structure Spi (w m k : Nat) where
  state : State
  sclkCtr : BitVec (m + 1)
  sclkIntR : Bool
  triggerR : Bool
  csInt : BitVec k
  csIdleInt : BitVec k
  dinInt : BitVec (w + 1)
  doutReg : BitVec (w + 1)
  bitCnt : BitVec 16
  deriving DecidableEq, Repr

/-- The inputs of `spi_master`. -/
structure SpiIn (w k : Nat) where
  csIn : BitVec k
  csInIdle : BitVec k
  din : BitVec (w + 1)
  trigger : Bool
  ack : Bool
  miso : Bool
  deriving DecidableEq, Repr

namespace Spi

variable {w m k : Nat}

/-- `sclk_int` -/
def sclkInt (s : Spi w m k) : Bool := s.sclkCtr.getLsbD m

/-- `sclk_posedge` -/
def sclkPosedge (s : Spi w m k) : Bool := s.sclkInt && !s.sclkIntR

/-- `sclk_negedge` -/
def sclkNegedge (s : Spi w m k) : Bool := s.sclkIntR && !s.sclkInt

/-- The registers that run freely. -/
def tick (s : Spi w m k) (i : SpiIn w k) : Spi w m k :=
  { s with sclkCtr := s.sclkCtr + 1, sclkIntR := s.sclkInt, triggerR := i.trigger }

/-- A rising edge of `clk`. -/
def edge (s : Spi w m k) (i : SpiIn w k) : Spi w m k :=
  let t := s.tick i
  match s.state with
  | .idle =>
    if i.trigger && !s.triggerR then
      { t with
        bitCnt := 0, csInt := i.csIn, csIdleInt := i.csInIdle, dinInt := i.din, state := .waitCs }
    else { t with bitCnt := 0 }
  | .waitCs => if s.sclkNegedge then { t with state := .wait } else t
  | .wait => if s.sclkNegedge then { t with state := .start } else t
  | .start =>
    if s.sclkPosedge then
      { t with state := .clkRise, bitCnt := 1, doutReg := shiftIn s.doutReg i.miso }
    else t
  | .clkRise =>
    if s.sclkNegedge then
      if s.bitCnt == BitVec.ofNat 16 (w + 1) then { t with state := .fin }
      else { t with state := .clkFall, bitCnt := s.bitCnt + 1, dinInt := shiftIn s.dinInt false }
    else t
  | .clkFall =>
    if s.sclkPosedge then { t with doutReg := shiftIn s.doutReg i.miso, state := .clkRise } else t
  | .fin => if s.sclkPosedge then { t with state := .awaitAck } else t
  | .awaitAck => if i.ack then { t with state := .idle } else t

/-- `cs` -/
def cs (s : Spi w m k) : BitVec k :=
  match s.state with
  | .start => s.csInt
  | .clkRise => s.csInt
  | .clkFall => s.csInt
  | _ => s.csIdleInt

/-- `sclk` -/
def sclk (s : Spi w m k) : Bool :=
  match s.state with
  | .clkRise => true
  | .fin => true
  | .awaitAck => true
  | _ => false

/-- `mosi` -/
def mosi (s : Spi w m k) : Bool :=
  match s.state with
  | .start => s.dinInt.getLsbD w
  | .clkRise => s.dinInt.getLsbD w
  | .clkFall => s.dinInt.getLsbD w
  | .fin => s.dinInt.getLsbD w
  | _ => false

/-- `dvld` -/
def dvld (s : Spi w m k) : Bool := s.state == .awaitAck

end Spi

/-- The registers of `wb_spi_master`, with its `spi_master`. -/
structure WbSpi (w m k : Nat) where
  wbAck : Bool
  dinReg : BitVec 32
  spiDoutReg : BitVec 32
  csReg : BitVec 8
  csIdleReg : BitVec 8
  spiTrigger : Bool
  spiAck : Bool
  waitForSpi : Bool
  wbDataOutReg : BitVec 32
  spiEventCount : BitVec 32
  spi : Spi w m k
  deriving DecidableEq, Repr

/-- The inputs of `wb_spi_master`. -/
structure WbSpiIn where
  wbRst : Bool
  wbStb : Bool
  wbCyc : Bool
  wbWe : Bool
  wbAdr : BitVec 32
  wbDat : BitVec 32
  wbSel : BitVec 4
  miso : Bool
  deriving DecidableEq, Repr

/-- `x[NBITS-1:0] <= d` -/
def setLow {w : Nat} (x : BitVec 32) (d : BitVec (w + 1)) : BitVec 32 :=
  x >>> (w + 1) <<< (w + 1) ||| d.setWidth 32

namespace WbSpi

variable {w m k : Nat}

/-- The end of a transfer is acknowledged, whether the bus is in use or not. -/
def takeDout (s : WbSpi w m k) : WbSpi w m k :=
  let t := { s with wbAck := false, spiTrigger := false, spiAck := false }
  if s.waitForSpi && s.spi.dvld then
    { t with
      waitForSpi := false, spiEventCount := s.spiEventCount + 1
      spiDoutReg := setLow s.spiDoutReg s.spi.doutReg, spiAck := true }
  else t

/-- A write: of a command, of the enabled bytes of the data register, or of nothing. -/
def write (s : WbSpi w m k) (i : WbSpiIn) : WbSpi w m k :=
  match (i.wbAdr.extractLsb' 2 3).toNat with
  | 0 =>
    { s with
      wbAck := true, csReg := byte i.wbDat 0, csIdleReg := byte i.wbDat 1
      spiTrigger := true, waitForSpi := true }
  | 1 =>
    { s with
      wbAck := true
      dinReg := (List.range 4).foldl
        (fun x k => if i.wbSel.getLsbD k then setByte x k (byte i.wbDat k) else x) s.dinReg }
  | _ => { s with wbAck := true }

/-- A read: of the state, the data register, the data received, or the event count. -/
def read (s t : WbSpi w m k) (i : WbSpiIn) : WbSpi w m k :=
  match (i.wbAdr.extractLsb' 2 3).toNat with
  | 0 =>
    { t with
      wbAck := true
      wbDataOutReg := BitVec.ofBool s.waitForSpi ++ BitVec.ofBool s.spi.dvld ++ 0#14 ++
        s.csIdleReg ++ s.csReg }
  | 1 => { t with wbAck := true, wbDataOutReg := s.dinReg }
  | 2 =>
    { t with
      wbAck := true
      wbDataOutReg := setLow s.wbDataOutReg (s.spiDoutReg.setWidth (w + 1)) }
  | 3 => { t with wbAck := true, wbDataOutReg := s.spiEventCount }
  | _ => { t with wbAck := true, wbDataOutReg := 0 }

/-- An access is made in this cycle. -/
def accepts (s : WbSpi w m k) (i : WbSpiIn) : Bool := i.wbStb && i.wbCyc && !s.wbAck

/-- The signals to `spi_master`. -/
def toSpi (s : WbSpi w m k) (i : WbSpiIn) : SpiIn w k where
  csIn := s.csReg.setWidth k
  csInIdle := s.csIdleReg.setWidth k
  din := s.dinReg.setWidth (w + 1)
  trigger := s.spiTrigger
  ack := s.spiAck
  miso := i.miso

/-- `always @(posedge wb_clk_i)` of the Wishbone side -/
def wbEdge (s : WbSpi w m k) (i : WbSpiIn) : WbSpi w m k :=
  if i.wbRst then
    { s with wbAck := false, spiTrigger := false, spiAck := false, waitForSpi := false }
  else if s.accepts i then
    if i.wbWe then s.takeDout.write i else s.read s.takeDout i
  else s.takeDout

/-- A rising edge of `wb_clk_i`. -/
def edge (s : WbSpi w m k) (i : WbSpiIn) : WbSpi w m k :=
  { s.wbEdge i with spi := s.spi.edge (s.toSpi i) }

/-- `wb_dat_o` -/
def wbDatO (s : WbSpi w m k) : BitVec 32 := if s.wbAck then s.wbDataOutReg else 0

end WbSpi

/-! ## Runs -/

/-- A command: its chip selects and the data register when it is issued. -/
structure Command (w k : Nat) where
  cs : BitVec k
  csIdle : BitVec k
  din : BitVec (w + 1)
  deriving DecidableEq, Repr

/-- A rising edge of `sclk`: the chip selects and `mosi` before and after it, and the `miso`
sampled. -/
structure SclkEdge (k : Nat) where
  cs : BitVec k
  mosi : Bool
  csAfter : BitVec k
  mosiAfter : Bool
  miso : Bool
  deriving DecidableEq, Repr

/-- The core, and what has been seen on its two sides. -/
structure SpiWatch (w m k : Nat) where
  core : WbSpi w m k
  /-- the access that was made last is a read of register 0 -/
  reading : Bool
  /-- such a read has shown that nothing is pending since the last command -/
  shown : Bool
  /-- the commands issued -/
  commands : List (Command w k)
  /-- the rising edges of `sclk` -/
  edges : List (SclkEdge k)
  /-- the data-out register and the event counter whenever the pending bit has been cleared -/
  finished : List (BitVec (w + 1) × BitVec 32)
  deriving DecidableEq, Repr

namespace SpiWatch

variable {w m k : Nat}

/-- Register 0 is written. -/
def issues (s : SpiWatch w m k) (i : WbSpiIn) : Bool :=
  s.core.accepts i && i.wbWe && (i.wbAdr.extractLsb' 2 3).toNat == 0

/-- Register 0 is read. -/
def polls (s : SpiWatch w m k) (i : WbSpiIn) : Bool :=
  s.core.accepts i && !i.wbWe && (i.wbAdr.extractLsb' 2 3).toNat == 0

/-- The command that a write of register 0 is. -/
def command (s : SpiWatch w m k) (i : WbSpiIn) : Command w k :=
  ⟨(byte i.wbDat 0).setWidth k, (byte i.wbDat 1).setWidth k, s.core.dinReg.setWidth (w + 1)⟩

/-- A clock cycle. -/
def step (s : SpiWatch w m k) (i : WbSpiIn) : SpiWatch w m k :=
  let next := s.core.edge i
  { core := next
    reading := s.polls i
    shown := if s.issues i then false
      else s.shown || s.reading && !s.core.wbDatO.getLsbD 31
    commands := if s.issues i then s.commands ++ [s.command i] else s.commands
    edges := if !s.core.spi.sclk && next.spi.sclk then
        s.edges ++ [⟨s.core.spi.cs, s.core.spi.mosi, next.spi.cs, next.spi.mosi, i.miso⟩]
      else s.edges
    finished := if s.core.waitForSpi && !next.waitForSpi then
        s.finished ++ [(next.spiDoutReg.setWidth (w + 1), next.spiEventCount)]
      else s.finished }

/-- There is no reset, and a command only when nothing is known to be pending. -/
structure Careful (s : SpiWatch w m k) (i : WbSpiIn) : Prop where
  noReset : i.wbRst = false
  command : s.issues i = true → s.shown = true

end SpiWatch

end MlibDevel.SpiMaster
