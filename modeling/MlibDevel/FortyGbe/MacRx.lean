import MlibDevel.FortyGbe.MacTx

/-!
# Receiving Ethernet frames (`SKA_40GBE_MAC/ska_mac_rx.vhd`, `CRC/ska_mac_rx_crc_multi.vhd`)

A frame begins in one of four lanes of a word and ends in any.  The MAC brings its data to the
boundary of a word, takes the check sequence off the end, and puts out the payload with the bytes
that are valid.  The words are delayed until the check is calculated, so that the frame is good or
bad in the cycle of its last word.

The check is calculated a word at a time.  The end of a frame takes four more cycles, with eight
bytes each: what is valid in the last word decides which of the modules of `MacCrc` is used.
-/

namespace MlibDevel.FortyGbe

open Lib

/-- Which bytes of a word are valid -/
abbrev Mask := Fin 32 → Bool

/-- The first `n` bytes are valid. -/
def maskOf (n : Nat) : Mask := fun i => decide (i.val < n)

/-! ## The check sequence -/

/-- `T_CRC_STATE` -/
inductive CrcState
  | idle
  | full
  | trailPart1
  | trailPart2
  | trailPart3
  deriving DecidableEq, Repr, Inhabited

/-- The registers of `ska_mac_rx_crc_multi` -/
structure RxCrc where
  lastDataInBitSwapped : BitVec 256
  lastDataInVal : Mask
  crcInTailPart1 : BitVec 32
  crcInTailPart2 : BitVec 32
  crcInTailPart3 : BitVec 32
  finalCrc : BitVec 32
  trailPart1Crc : BitVec 32
  trailPart2Crc : BitVec 32
  trailPart3Crc : BitVec 32
  currentCrcState : CrcState
  crcOutInt256Reg : BitVec 32
  deriving Inhabited

namespace RxCrc

/-- `data_in_8` to `data_in_64`: the first bits of the part of the word that is next -/
def tailIn (s : RxCrc) (dataInBitSwapped : BitVec 256) (n : Nat) : BitVec n :=
  match s.currentCrcState with
  | .full => dataInBitSwapped.extractLsb' (256 - n) n
  | .trailPart1 => s.lastDataInBitSwapped.extractLsb' (192 - n) n
  | .trailPart2 => s.lastDataInBitSwapped.extractLsb' (128 - n) n
  | .trailPart3 => s.lastDataInBitSwapped.extractLsb' (64 - n) n
  | .idle => 0

/-- `crc_in_tail` -/
def crcInTail (s : RxCrc) : BitVec 32 :=
  match s.currentCrcState with
  | .full => s.crcOutInt256Reg
  | .trailPart1 => s.crcInTailPart1
  | .trailPart2 => s.crcInTailPart2
  | .trailPart3 | .idle => s.crcInTailPart3

/-- `crc_out_int64` -/
def crcOutInt64 (s : RxCrc) (dataInBitSwapped : BitVec 256) : BitVec 32 :=
  crc64 (s.tailIn dataInBitSwapped 64) s.crcInTail

/-- The check of the valid bytes among the eight from `first` on, or `none` if there are none -/
def tailCrc (s : RxCrc) (dataInBitSwapped : BitVec 256) (val : Mask) (first : Nat)
    (none : BitVec 32) : BitVec 32 :=
  if val (Fin.ofNat 32 (first + 7)) then s.crcOutInt64 dataInBitSwapped
  else if val (Fin.ofNat 32 (first + 6)) then crc56 (s.tailIn dataInBitSwapped 56) s.crcInTail
  else if val (Fin.ofNat 32 (first + 5)) then crc48 (s.tailIn dataInBitSwapped 48) s.crcInTail
  else if val (Fin.ofNat 32 (first + 4)) then crc40 (s.tailIn dataInBitSwapped 40) s.crcInTail
  else if val (Fin.ofNat 32 (first + 3)) then crc32 (s.tailIn dataInBitSwapped 32) s.crcInTail
  else if val (Fin.ofNat 32 (first + 2)) then crc24 (s.tailIn dataInBitSwapped 24) s.crcInTail
  else if val (Fin.ofNat 32 (first + 1)) then crc16 (s.tailIn dataInBitSwapped 16) s.crcInTail
  else if val (Fin.ofNat 32 first) then crc8 (s.tailIn dataInBitSwapped 8) s.crcInTail
  else none

/-- `crc_out`: the bits are complemented and their order is reversed. -/
def crcOut (s : RxCrc) : BitVec 32 := vectorOf fun i : Fin 32 => !s.finalCrc.getLsbD (31 - i)

/-- `gen_current_crc_state` without the reset -/
def nextCrcState (s : RxCrc) (crcReset : Bool) (x : BitVec 256) (dataInVal : Mask) : RxCrc :=
  match s.currentCrcState with
  | .idle => if dataInVal = maskOf 32 ∧ crcReset then { s with currentCrcState := .full } else s
  | .full =>
    if dataInVal ≠ maskOf 32 then
      { s with
        lastDataInBitSwapped := x
        lastDataInVal := dataInVal
        crcInTailPart1 := if dataInVal 7 then s.crcOutInt64 x else s.crcInTailPart1
        trailPart1Crc := s.tailCrc x dataInVal 0 s.crcOutInt256Reg
        currentCrcState := .trailPart1 }
    else s
  | .trailPart1 =>
    { s with
      crcInTailPart2 := if s.lastDataInVal 15 then s.crcOutInt64 x else s.crcInTailPart2
      trailPart2Crc := s.tailCrc x s.lastDataInVal 8 s.trailPart1Crc
      currentCrcState := .trailPart2 }
  | .trailPart2 =>
    { s with
      crcInTailPart3 := if s.lastDataInVal 23 then s.crcOutInt64 x else s.crcInTailPart3
      trailPart3Crc := s.tailCrc x s.lastDataInVal 16 s.trailPart2Crc
      currentCrcState := .trailPart3 }
  | .trailPart3 =>
    { s with
      crcInTailPart3 := if s.lastDataInVal 31 then s.crcOutInt64 x else s.crcInTailPart3
      finalCrc := s.tailCrc x s.lastDataInVal 24 s.trailPart3Crc
      currentCrcState := if dataInVal = maskOf 32 then .full else .idle }

/-- A rising edge of `clk`. -/
def edge (s : RxCrc) (rst crcReset : Bool) (crcInit : BitVec 32) (dataIn : Fin 32 → BitVec 8)
    (dataInVal : Mask) :
    RxCrc :=
  let x := dataInBitSwapped dataIn
  { if rst then
    { (default :
    RxCrc) with lastDataInVal := maskOf 0 } else s.nextCrcState crcReset x dataInVal with
    crcOutInt256Reg := crc256 x (if crcReset then crcInit else s.crcOutInt256Reg) }

end RxCrc

/-! ## The MAC -/

/-- The inputs -/
structure MacRxIn where
  xlgmiiRx : MacWord
  macRst : Bool
  macRxEnable : Bool
  deriving Inhabited

/-- `T_MAC_STATE` of the receiver -/
inductive MacRxState
  | idle
  | recAligned0
  | recAligned64
  | recAligned128
  | recAligned192
  deriving DecidableEq, Repr, Inhabited

/-- The registers of `ska_mac_rx`.  In `xlgmiiRxCrcMasked` and behind it the control bits are those
of valid bytes. -/
structure MacRx where
  xlgmiiRxZ1 : MacWord
  currentMacState : MacRxState
  currentMacStateZ1 : MacRxState
  crcDoReset : Bool
  clearFinishedPacket : Bool
  xlgmiiRxAlignedZ1 : MacWord
  xlgmiiRxCrcMasked : MacWord
  nextXlgmiiRxCrcMasked : MacWord
  useNextXlgmiiRxdCrcMasked : Bool
  finishedPacket : Bool
  receivedCrc : BitVec 32
  crcDoResetZ1 : Bool
  crcReset : Bool
  crc : RxCrc
  macRxI : MacWord
  macRxIZ1 : MacWord
  macRxIZ2 : MacWord
  macRxIZ3 : MacWord
  macRxIZ4 : MacWord
  terminateByteFoundZ1 : Bool
  terminateByteFoundZ2 : Bool
  terminateByteFoundZ3 : Bool
  terminateByteFoundZ4 : Bool
  terminateByteFoundZ5 : Bool
  terminateByteFoundZ6 : Bool
  receivedCrcZ1 : BitVec 32
  receivedCrcZ2 : BitVec 32
  receivedCrcZ3 : BitVec 32
  deriving Inhabited

/-- The start byte is in this lane, and data from there on. -/
def startByteAt (w : MacWord) (lane : Fin 32) : Bool :=
  w.d lane == cStartByte && decide (∀ i, lane ≤ i → w.c i = decide (i = lane))

/-- Two words one after the other, from some byte on -/
def alignedFrom (skip : Nat) (z1 w : MacWord) : MacWord where
  d := fun i => if i.val + skip < 32 then z1.d (Fin.ofNat 32 (i + skip)) else w.d
    (Fin.ofNat 32 (i + skip))
  c := fun i => if i.val + skip < 32 then z1.c (Fin.ofNat 32 (i + skip)) else w.c
    (Fin.ofNat 32 (i + skip))

/-- `xlgmii_rxd_aligned_0` and `xlgmii_rxc_aligned_0` -/
def xlgmiiRxAligned0 (z1 w : MacWord) : MacWord := alignedFrom 8 z1 w

/-- `xlgmii_rxd_aligned_64` and `xlgmii_rxc_aligned_64` -/
def xlgmiiRxAligned64 (z1 w : MacWord) : MacWord := alignedFrom 16 z1 w

/-- `xlgmii_rxd_aligned_128` and `xlgmii_rxc_aligned_128` -/
def xlgmiiRxAligned128 (z1 w : MacWord) : MacWord := alignedFrom 24 z1 w

/-- `xlgmii_rxd_aligned_192` and `xlgmii_rxc_aligned_192` -/
def xlgmiiRxAligned192 (z1 w : MacWord) : MacWord := alignedFrom 32 z1 w

/-- The first lane with the terminate byte -/
def terminateLane (w : MacWord) : Option (Fin 32) :=
  (List.finRange 32).find? fun i => w.d i == cTerminateByte && w.c i

/-- The four bytes before lane `k` of a word, of which some can be in the word before it -/
def crcBefore (z1 w : MacWord) (k : Fin 32) : BitVec 32 :=
  let b : Nat → BitVec 8 := fun j =>
    if k.val + j < 4 then z1.d (Fin.ofNat 32 (28 + k + j)) else w.d (Fin.ofNat 32 (28 + k + j))
  b 3 ++ b 2 ++ b 1 ++ b 0

namespace MacRx

/-- `gen_current_mac_state`; the other signals are set when a frame begins. -/
def nextMacState (s : MacRx) (i : MacRxIn) (terminateByteFound : Bool) : MacRxState × Bool :=
  match s.currentMacState with
  | .idle =>
    if startByteAt i.xlgmiiRx 0 && i.macRxEnable then (.recAligned0, true)
    else if startByteAt i.xlgmiiRx 8 && i.macRxEnable then (.recAligned64, true)
    else if startByteAt i.xlgmiiRx 16 && i.macRxEnable then (.recAligned128, true)
    else if startByteAt i.xlgmiiRx 24 && i.macRxEnable then (.recAligned192, true)
    else (.idle, false)
  | state => (if terminateByteFound then .idle else state, false)

/-- `xlgmii_rxd_aligned` and `xlgmii_rxc_aligned` -/
def xlgmiiRxAligned (s : MacRx) (i : MacRxIn) : MacWord :=
  match s.currentMacState with
  | .recAligned0 => xlgmiiRxAligned0 s.xlgmiiRxZ1 i.xlgmiiRx
  | .recAligned64 => xlgmiiRxAligned64 s.xlgmiiRxZ1 i.xlgmiiRx
  | .recAligned128 => xlgmiiRxAligned128 s.xlgmiiRxZ1 i.xlgmiiRx
  | .recAligned192 => xlgmiiRxAligned192 s.xlgmiiRxZ1 i.xlgmiiRx
  | .idle => cIdle

/-- `terminate_byte_found` -/
def terminateByteFound (s : MacRx) (i : MacRxIn) : Bool :=
  match terminateLane (s.xlgmiiRxAligned i) with
  | some k => decide (k.val < 5) || s.useNextXlgmiiRxdCrcMasked
  | none => s.useNextXlgmiiRxdCrcMasked

/-- `mac_rx_busy` -/
def macRxBusy (s : MacRx) (i : MacRxIn) : Bool :=
  s.currentMacState != .idle && !s.terminateByteFound i

/-- `gen_xlgmii_rxd_crc_masked` without the reset -/
def crcMasked (s : MacRx) (i : MacRxIn) : MacRx :=
  let aligned := s.xlgmiiRxAligned i
  if s.useNextXlgmiiRxdCrcMasked then
    { s with
      xlgmiiRxCrcMasked := s.nextXlgmiiRxCrcMasked
      useNextXlgmiiRxdCrcMasked := false
      finishedPacket := true }
  else match terminateLane aligned with
    | some k =>
      if k.val < 5 then
        { s with
          xlgmiiRxCrcMasked := ⟨s.xlgmiiRxAlignedZ1.d, maskOf (28 + k)⟩
          receivedCrc := crcBefore s.xlgmiiRxAlignedZ1 aligned k
          finishedPacket := true }
      else
        { s with
          xlgmiiRxCrcMasked := ⟨s.xlgmiiRxAlignedZ1.d, maskOf 32⟩
          nextXlgmiiRxCrcMasked := ⟨aligned.d, maskOf (k - 4)⟩
          useNextXlgmiiRxdCrcMasked := true
          receivedCrc := crcBefore s.xlgmiiRxAlignedZ1 aligned k
          finishedPacket := true }
    | none =>
      { s with
        xlgmiiRxCrcMasked :=
          ⟨s.xlgmiiRxAlignedZ1.d, if s.finishedPacket then maskOf 0 else fun n =>
            !s.xlgmiiRxAlignedZ1.c n⟩
        finishedPacket := s.finishedPacket && !s.clearFinishedPacket }

/-- A rising edge of `mac_clk`. -/
def edge (s : MacRx) (i : MacRxIn) : MacRx :=
  let masked :=
    if i.macRst then
      { s with
        xlgmiiRxCrcMasked := ⟨fun _ => 0, maskOf 0⟩
        nextXlgmiiRxCrcMasked := ⟨fun _ => 0, maskOf 0⟩
        useNextXlgmiiRxdCrcMasked := false
        finishedPacket := false }
    else s.crcMasked i
  let next := s.nextMacState i (s.terminateByteFound i)
  { xlgmiiRxZ1 := i.xlgmiiRx
    currentMacState := if i.macRst then .idle else next.1
    currentMacStateZ1 := if i.macRst then .idle else s.currentMacState
    crcDoReset := !i.macRst && next.2
    clearFinishedPacket := !i.macRst && next.2
    xlgmiiRxAlignedZ1 := s.xlgmiiRxAligned i
    xlgmiiRxCrcMasked := masked.xlgmiiRxCrcMasked
    nextXlgmiiRxCrcMasked := masked.nextXlgmiiRxCrcMasked
    useNextXlgmiiRxdCrcMasked := masked.useNextXlgmiiRxdCrcMasked
    finishedPacket := masked.finishedPacket
    receivedCrc := masked.receivedCrc
    crcDoResetZ1 := s.crcDoReset
    crcReset := s.crcDoResetZ1
    crc := s.crc.edge i.macRst s.crcReset
      (BitVec.allOnes 32) s.xlgmiiRxCrcMasked.d s.xlgmiiRxCrcMasked.c
    macRxI := ⟨s.xlgmiiRxCrcMasked.d,
      if s.currentMacStateZ1 ≠ .idle then s.xlgmiiRxCrcMasked.c else maskOf 0⟩
    macRxIZ1 := s.macRxI
    macRxIZ2 := s.macRxIZ1
    macRxIZ3 := s.macRxIZ2
    macRxIZ4 := s.macRxIZ3
    terminateByteFoundZ1 := s.terminateByteFound i
    terminateByteFoundZ2 := s.terminateByteFoundZ1
    terminateByteFoundZ3 := s.terminateByteFoundZ2
    terminateByteFoundZ4 := s.terminateByteFoundZ3
    terminateByteFoundZ5 := s.terminateByteFoundZ4
    terminateByteFoundZ6 := s.terminateByteFoundZ5
    receivedCrcZ1 := s.receivedCrc
    receivedCrcZ2 := s.receivedCrcZ1
    receivedCrcZ3 := s.receivedCrcZ2 }

/-- `mac_rx_data` and `mac_rx_data_valid` -/
def macRxData (s : MacRx) : MacWord := s.macRxIZ4

/-- `mac_rx_good_frame` -/
def macRxGoodFrame (s : MacRx) : Bool := s.terminateByteFoundZ6 && s.crc.crcOut == s.receivedCrcZ3

/-- `mac_rx_bad_frame` -/
def macRxBadFrame (s : MacRx) : Bool := s.terminateByteFoundZ6 && s.crc.crcOut != s.receivedCrcZ3

end MacRx

/-! ## What comes in -/

/-- Lane `p` of the words that come in, one in each cycle -/
def wireLane (w : Nat → MacWord) (p : Nat) : Lane :=
  ((w (p / 32)).c (Fin.ofNat 32 p), (w (p / 32)).d (Fin.ofNat 32 p))

/-- No frame begins. -/
def Quiet (i : MacRxIn) : Prop :=
  i.macRxEnable = true → ∀ a < 4, startByteAt i.xlgmiiRx (Fin.ofNat 32 (8 * a)) = false

end MlibDevel.FortyGbe
