import MlibDevel.Lib.Octets

/-!
# Transmission of a frame (`tge_tx.v`)

The application writes the words of a frame into a FIFO and, with the last word, their number and
the destination into another.  On the side of the MAC a state machine sends six words of header, the
last of which already holds six bytes of data, the data shifted by two bytes, and at last the two
bytes left.

Both FIFOs show their first entry (first-word fall-through); `packet_rd` and `packet_ctrl_rd` remove
it.
-/

namespace MlibDevel.TenGbe

open Lib

/-! ## The application side -/

/-- An entry of the control FIFO. -/
structure Ctrl where
  size : BitVec 16
  port : BitVec 16
  ip : BitVec 32
  deriving DecidableEq, Repr

/-- The inputs from the application. -/
structure AppTxIn where
  valid : Bool
  endOfFrame : Bool
  data : BitVec 64
  destIp : BitVec 32
  destPort : BitVec 16
  deriving DecidableEq, Repr

/-- The registers of the application side. -/
structure AppTx where
  validR : Bool
  dataR : BitVec 64
  destIpR : BitVec 32
  destPortR : BitVec 16
  ctrlFifoEn : Bool
  dataCount : BitVec 16
  deriving DecidableEq, Repr

/-- `always @(posedge app_clk)` -/
def AppTx.edge (s : AppTx) (i : AppTxIn) : AppTx where
  validR := i.valid
  dataR := i.data
  destIpR := i.destIp
  destPortR := i.destPort
  ctrlFifoEn := i.valid && i.endOfFrame
  dataCount :=
    if s.ctrlFifoEn then 1
    else if s.validR then s.dataCount + 1
    else s.dataCount

/-- What is written into the data FIFO. -/
def AppTx.packetWr (s : AppTx) : List (BitVec 64) := if s.validR then [s.dataR] else []

/-- What is written into the control FIFO. -/
def AppTx.ctrlWr (s : AppTx) : List Ctrl :=
  if s.ctrlFifoEn then [⟨s.dataCount, s.destPortR, s.destIpR⟩] else []

/-- The words written in a run of the application side. -/
def AppTx.packetWrites : AppTx → List AppTxIn → List (BitVec 64)
  | _, [] => []
  | s, i :: is => s.packetWr ++ packetWrites (s.edge i) is

/-- The control entries written in a run of the application side. -/
def AppTx.ctrlWrites : AppTx → List AppTxIn → List Ctrl
  | _, [] => []
  | s, i :: is => s.ctrlWr ++ ctrlWrites (s.edge i) is

/-! ## The MAC side -/

/-- The local parameters of `tge_tx`, with the ARP cache that the CPU fills. -/
structure TxParams where
  localMac : BitVec 48
  localIp : BitVec 32
  localPort : BitVec 16
  localGateway : BitVec 8
  arpCache : BitVec 8 → BitVec 48
  ttl : BitVec 8

/-- `TX_IDLE` to `TX_SEND_CPU` -/
inductive TxState
  | idle
  | sendHdr1
  | sendHdr1Multicast
  | sendHdr2
  | sendHdr3
  | sendHdr4
  | sendHdr5
  | sendHdr6
  | sendData
  | sendLast
  | cpuWait
  | sendCpu
  deriving DecidableEq, Repr

/-- The registers of the transmit state machine and the output of the ARP cache. -/
structure TxRegs where
  txState : TxState
  packetRdReg : Bool
  macDataValid : BitVec 8
  ipLength : BitVec 16
  udpLength : BitVec 16
  ipChecksum0 : BitVec 18
  ipChecksum1 : BitVec 17
  ipChecksum : BitVec 16
  txSize : BitVec 16
  txIpTtl : BitVec 8
  dataLeftovers : BitVec 16
  macCpuAckReg : Bool
  macCpuAddrReg : BitVec 8
  packetArpCacheData : BitVec 48
  deriving DecidableEq, Repr

/-- The other inputs of the MAC side, and what the application side adds to the FIFOs. -/
structure TxIn where
  localEnableRetimed : Bool
  appOverflowRetimed : Bool
  macCpuPending : Bool
  macCpuSize : BitVec 8
  macCpuData : BitVec 64
  macTxAck : Bool
  packetWr : List (BitVec 64)
  ctrlWr : List Ctrl

/-- `packet_arp_cache_addr` -/
def TxParams.packetArpCacheAddr (p : TxParams) (ip : BitVec 32) : BitVec 8 :=
  if ip.extractLsb' 8 24 != p.localIp.extractLsb' 8 24 then p.localGateway else byte ip 0

/-- A multicast address -/
def isMulticast (ip : BitVec 32) : Bool := ip.extractLsb' 28 4 == 0xe#4

namespace TxRegs

/-- The registers that do not depend on the state: strobes, data and header sums. -/
def latch (p : TxParams) (s : TxRegs) (ctrl : Ctrl) (packetData : BitVec 64) (i : TxIn) : TxRegs :=
  { s with
    packetRdReg := false
    dataLeftovers := packetData.extractLsb' 0 16
    packetArpCacheData := p.arpCache (p.packetArpCacheAddr ctrl.ip)
    macCpuAckReg := if !i.macCpuPending then false else s.macCpuAckReg
    ipLength := (ctrl.size.extractLsb' 0 13 ++ 0#3) + 28#16
    udpLength := (ctrl.size.extractLsb' 0 13 ++ 0#3) + 8#16
    ipChecksum0 :=
      (0x4500#16).setWidth 18 + s.ipLength.setWidth 18 + 0 + (0x4000#16).setWidth 18 +
        (s.txIpTtl ++ 0x11#8).setWidth 18 +
        (p.localIp.extractLsb' 0 16).setWidth 18 + (p.localIp.extractLsb' 16 16).setWidth 18 +
        (ctrl.ip.extractLsb' 0 16).setWidth 18 + (ctrl.ip.extractLsb' 16 16).setWidth 18
    ipChecksum1 :=
      (s.ipChecksum0.extractLsb' 0 16).setWidth 17 + (s.ipChecksum0.extractLsb' 16 2).setWidth 17
    ipChecksum :=
      ~~~(s.ipChecksum1.extractLsb' 0 16 + (s.ipChecksum1.extractLsb' 16 1).setWidth 16) }

/-- A frame of the application can be started. -/
def appStarts (ctrlEmpty : Bool) (i : TxIn) : Bool :=
  !ctrlEmpty && i.localEnableRetimed && !i.appOverflowRetimed

/-- `always @(posedge mac_clk)`; of several assignments the last one counts. -/
def edge (p : TxParams) (s : TxRegs) (ctrlFifo : List Ctrl) (packetData : BitVec 64) (i : TxIn) :
    TxRegs :=
  let ctrl := ctrlFifo.headD ⟨0, 0, 0⟩
  let s' := s.latch p ctrl packetData i
  match s.txState with
  | .idle =>
    let s' := { s' with macCpuAddrReg := 0 }
    let s' :=
      if appStarts ctrlFifo.isEmpty i then
        { s' with
          macDataValid := 0xff
          txSize := ctrl.size - 1
          txIpTtl := p.ttl
          txState := if isMulticast ctrl.ip then .sendHdr1Multicast else .sendHdr1 }
      else s'
    -- CPU access takes preference
    if !s.macCpuAckReg && i.macCpuPending then
      if i.macCpuSize != 0 then
        { s' with
          macDataValid := 0xff
          txSize := i.macCpuSize.setWidth 16
          txState := .cpuWait
          macCpuAddrReg := 1 }
      else { s' with macCpuAckReg := true }
    else s'
  | .sendHdr1Multicast => if i.macTxAck then { s' with txState := .sendHdr2 } else s'
  | .sendHdr1 => if i.macTxAck then { s' with txState := .sendHdr2 } else s'
  | .sendHdr2 => { s' with txState := .sendHdr3 }
  | .sendHdr3 => { s' with txState := .sendHdr4 }
  | .sendHdr4 => { s' with txState := .sendHdr5 }
  | .sendHdr5 => { s' with txState := .sendHdr6, packetRdReg := true }
  | .sendHdr6 =>
    let s' := { s' with txSize := s.txSize - 1 }
    if s.txSize == 0 then { s' with macDataValid := 0x03, txState := .sendLast }
    else { s' with txState := .sendData, packetRdReg := true }
  | .sendData =>
    let s' := { s' with txSize := s.txSize - 1 }
    if s.txSize == 0 then { s' with macDataValid := 0x03, txState := .sendLast }
    else { s' with packetRdReg := true }
  | .sendLast => { s' with txState := .idle, macDataValid := 0 }
  | .cpuWait =>
    if i.macTxAck then
      if s.txSize == 1 then
        { s' with txState := .idle, macDataValid := 0, macCpuAckReg := true }
      else
        { s' with
          txState := .sendCpu, txSize := s.txSize - 1, macCpuAddrReg := s.macCpuAddrReg + 1 }
    else s'
  | .sendCpu =>
    if s.txSize == 1 then { s' with txState := .idle, macDataValid := 0, macCpuAckReg := true }
    else { s' with txSize := s.txSize - 1, macCpuAddrReg := s.macCpuAddrReg + 1 }

/-- A word of data, behind the two bytes left over from the word before. -/
def dataWord (leftovers : BitVec 16) (d : BitVec 64) : BitVec 64 :=
  ofBytes (byte d 2) (byte d 3) (byte d 4) (byte d 5) (byte d 6) (byte d 7)
    (byte leftovers 0) (byte leftovers 1)

/-- A word of the CPU, its first byte first. -/
def cpuWord (d : BitVec 64) : BitVec 64 :=
  ofBytes (byte d 0) (byte d 1) (byte d 2) (byte d 3) (byte d 4) (byte d 5) (byte d 6) (byte d 7)

/-- `mac_tx_data` -/
def macTxData (p : TxParams) (s : TxRegs) (ctrl : Ctrl) (packetData : BitVec 64) (i : TxIn) :
    BitVec 64 :=
  match s.txState with
  | .sendHdr1 =>
    let destMac := s.packetArpCacheData
    ofBytes (byte p.localMac 4) (byte p.localMac 5) (byte destMac 0) (byte destMac 1)
      (byte destMac 2) (byte destMac 3) (byte destMac 4) (byte destMac 5)
  | .sendHdr1Multicast =>
    ofBytes (byte p.localMac 4) (byte p.localMac 5) (byte ctrl.ip 0) (byte ctrl.ip 1)
      (0#1 ++ ctrl.ip.extractLsb' 16 7) 0x5e#8 0x00#8 0x01#8
  | .sendHdr2 =>
    ofBytes 0x00#8 0x45#8 0x00#8 0x08#8 (byte p.localMac 0) (byte p.localMac 1)
      (byte p.localMac 2) (byte p.localMac 3)
  | .sendHdr3 =>
    ofBytes 0x11#8 s.txIpTtl 0x00#8 0x40#8 0x00#8 0x00#8 (byte s.ipLength 0) (byte s.ipLength 1)
  | .sendHdr4 =>
    ofBytes (byte ctrl.ip 2) (byte ctrl.ip 3) (byte p.localIp 0) (byte p.localIp 1)
      (byte p.localIp 2) (byte p.localIp 3) (byte s.ipChecksum 0) (byte s.ipChecksum 1)
  | .sendHdr5 =>
    ofBytes (byte s.udpLength 0) (byte s.udpLength 1) (byte ctrl.port 0) (byte ctrl.port 1)
      (byte p.localPort 0) (byte p.localPort 1) (byte ctrl.ip 0) (byte ctrl.ip 1)
  | .sendHdr6 =>
    ofBytes (byte packetData 2) (byte packetData 3) (byte packetData 4) (byte packetData 5)
      (byte packetData 6) (byte packetData 7) 0x00#8 0x00#8
  | .sendData => dataWord s.dataLeftovers packetData
  | .sendLast =>
    ofBytes 0x00#8 0x00#8 0x00#8 0x00#8 0x00#8 0x00#8 (byte s.dataLeftovers 0)
      (byte s.dataLeftovers 1)
  | .sendCpu => cpuWord i.macCpuData
  | .cpuWait => cpuWord i.macCpuData
  | .idle => 0

end TxRegs

/-! ## The words a run sends -/

/-- A word with its valid bytes. -/
structure MacTx where
  data : BitVec 64
  dataValid : BitVec 8
  deriving DecidableEq, Repr

/-- The MAC side with its FIFOs. -/
structure TxSys where
  regs : TxRegs
  packetFifo : List (BitVec 64)
  ctrlFifo : List Ctrl

namespace TxSys

/-- A clock cycle. -/
def step (p : TxParams) (s : TxSys) (i : TxIn) : TxSys where
  regs := s.regs.edge p s.ctrlFifo (s.packetFifo.headD 0) i
  packetFifo := (if s.regs.packetRdReg then s.packetFifo.tail else s.packetFifo) ++ i.packetWr
  ctrlFifo := (if s.regs.txState == .sendLast then s.ctrlFifo.tail else s.ctrlFifo) ++ i.ctrlWr

/-- The first word of a frame stands until the MAC acknowledges it. -/
def held (s : TxSys) : Bool :=
  s.regs.txState == .sendHdr1 || s.regs.txState == .sendHdr1Multicast || s.regs.txState == .cpuWait

/-- The word the MAC takes in a cycle. -/
def sends (p : TxParams) (s : TxSys) (i : TxIn) : List MacTx :=
  if s.regs.macDataValid == 0 || s.held && !i.macTxAck then []
  else
    [⟨s.regs.macTxData p (s.ctrlFifo.headD ⟨0, 0, 0⟩) (s.packetFifo.headD 0) i,
      s.regs.macDataValid⟩]

/-- The words the MAC takes in a run. -/
def sent (p : TxParams) : TxSys → List TxIn → List MacTx
  | _, [] => []
  | s, i :: is => s.sends p i ++ sent p (s.step p i) is

end TxSys

end MlibDevel.TenGbe
