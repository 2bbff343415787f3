import MlibDevel.Lib.Octets

/-!
# Reception of a frame (`gbe_rx.v`)

The bytes of a frame pass a state machine that counts through its headers.  Each header byte is
checked in the cycle behind it, the result is registered once more, and it is added to `cpu_ok` and
`app_ok` under a state that was registered once.

The application gets the bytes behind the headers through a FIFO; the CPU gets all bytes in a
buffer.
-/

namespace MlibDevel.Onegbe

open Lib

/-- `local_mac`, `local_ip`, `local_port`, `cpu_promiscuous` and the parameter `DIS_CPU` -/
structure LocalParams where
  localMac : BitVec 48
  localIp : BitVec 32
  localPort : BitVec 16
  cpuPromiscuous : Bool
  disCpu : Bool
  deriving DecidableEq, Repr

/-- The other inputs on the side of `mac_clk`; `app_rst_got` is a register of `app_clk`. -/
structure GbeRxIn where
  macRxData : BitVec 8
  macRxDvld : Bool
  macRxGoodframe : Bool
  macRxBadframe : Bool
  localEnable : Bool
  packetFifoOverflow : Bool
  ctrlFifoOverflow : Bool
  appRstGot : Bool
  cpuAck : Bool
  deriving DecidableEq, Repr

/-- `RX_IDLE` to `RX_DATA` -/
inductive RxState
  | idle
  | hdr0
  | hdr1
  | hdr2
  | data
  deriving DecidableEq, Repr

/-- `APP_RUNNING` and `APP_BLOCKED` -/
inductive AppState
  | running
  | blocked
  deriving DecidableEq, Repr

/-- `CPU_IDLE` to `CPU_HANDSHAKE` -/
inductive CpuState
  | idle
  | data
  | validate
  | handshake
  deriving DecidableEq, Repr

/-- The MAC RX state machine, the delays of the data, and the packet check flags. -/
structure RxMac where
  rxState : RxState
  hdrProgress : BitVec 6
  icmpUnsearchable : Bool
  macData : BitVec 8
  macDvld : Bool
  macRxGoodframeReg : Bool
  macRxBadframeReg : Bool
  macDataAligned : BitVec 8
  macDvldAligned : Bool
  srcAddr : BitVec 32
  srcPort : BitVec 16
  cpuOk : Bool
  appOk : Bool
  hdr0CpuOk : Bool
  hdr0AppOk : Bool
  hdr1CpuOk : Bool
  hdr1AppOk : Bool
  hdr2CpuOk : Bool
  hdr2AppOk : Bool
  hdr0CpuOkR : Bool
  hdr0AppOkR : Bool
  hdr1CpuOkR : Bool
  hdr1AppOkR : Bool
  hdr2CpuOkR : Bool
  hdr2AppOkR : Bool
  rxStateR : RxState
  localEnableR : Bool
  localEnableRR : Bool
  deriving DecidableEq, Repr

/-- The application WR interface. -/
structure RxApp where
  rxOverrun : Bool
  appRstAck : Bool
  appRstGotR : Bool
  appRstGotRR : Bool
  appState : AppState
  packetDvld : Bool
  packetFirst : Bool
  deriving DecidableEq, Repr

/-- The CPU interface. -/
structure RxCpu where
  cpuState : CpuState
  cpuBufferSelReg : Bool
  cpuInvalidate : Bool
  cpuCounter : BitVec 11
  cpuSizeReg : BitVec 11
  cpuReadyReg : Bool
  deriving DecidableEq, Repr

/-- The registers of `mac_clk`. -/
structure GbeRx where
  mac : RxMac
  app : RxApp
  cpu : RxCpu
  deriving DecidableEq, Repr

/-! ## The checks of the header bytes -/

/-- A byte of the destination MAC address, from the first on: neither ours nor of a broadcast. -/
def hdr0MacWrong (p : LocalParams) (hdrProgress : BitVec 6) (macData : BitVec 8) : Bool :=
  decide (hdrProgress.toNat < 6) &&
    (byte p.localMac (5 - hdrProgress.toNat) != macData && macData != 0xff#8)

/-- A byte of the Ethertype - must be ipv4 -/
def hdr0TypeWrong (hdrProgress : BitVec 6) (macData : BitVec 8) : Bool :=
  hdrProgress == 12 && macData != 0x08#8 || hdrProgress == 13 && macData != 0x00#8

/-- A byte of the IP header: the version, the protocol (UDP, or ICMP for the loop-back test) or our
address. -/
def hdr1Wrong (p : LocalParams) (hdrProgress : BitVec 6) (macData : BitVec 8) : Bool :=
  hdrProgress == 0 && macData != 0x45#8 ||
    hdrProgress == 9 && (macData != 0x11#8 && macData != 0x01#8) ||
    decide (16 ≤ hdrProgress.toNat ∧ hdrProgress.toNat < 20) &&
      macData != byte p.localIp (19 - hdrProgress.toNat)

/-- A byte of the UDP header: our port. -/
def hdr2Wrong (p : LocalParams) (hdrProgress : BitVec 6) (macData : BitVec 8) : Bool :=
  hdrProgress == 2 && macData != byte p.localPort 1 ||
    hdrProgress == 3 && macData != byte p.localPort 0

namespace RxMac

/-! ## The MAC RX state machine -/

/-- The end of the IP header, with 28 bytes more for the loop-back of an ICMP packet. -/
def hdr1Ends (s : RxMac) : Bool :=
  s.hdrProgress == 20 - 1 && !s.icmpUnsearchable ||
    s.hdrProgress == 20 + 28 - 1 && s.icmpUnsearchable

/-- `rx_state` after a clock edge. -/
def nextRxState (s : RxMac) (i : GbeRxIn) : RxState :=
  match s.rxState with
  | .idle => if i.macRxDvld then .hdr0 else .idle
  | .hdr0 => if s.hdrProgress == 14 - 1 then .hdr1 else .hdr0
  | .hdr1 => if s.hdr1Ends then .hdr2 else .hdr1
  | .hdr2 => if s.hdrProgress == 8 - 1 then .data else .hdr2
  | .data => if !i.macRxDvld then .idle else .data

/-- `hdr_progress` after a clock edge. -/
def nextHdrProgress (s : RxMac) (i : GbeRxIn) : BitVec 6 :=
  match s.rxState with
  | .idle => if i.macRxDvld then 0 else s.hdrProgress + 1
  | .hdr0 => if s.hdrProgress == 14 - 1 then 0 else s.hdrProgress + 1
  | .hdr1 => if s.hdr1Ends then 0 else s.hdrProgress + 1
  | _ => s.hdrProgress + 1

/-- `icmp_unsearchable` after a clock edge. -/
def nextIcmp (s : RxMac) : Bool :=
  match s.rxState with
  | .hdr0 => false
  | .hdr1 => if s.hdrProgress == 9 && s.macData == 0x01#8 then true else s.icmpUnsearchable
  | _ => s.icmpUnsearchable

/-- `src_addr` after a clock edge. -/
def nextSrcAddr (s : RxMac) : BitVec 32 :=
  match s.rxState, s.hdrProgress.toNat with
  | .hdr1, 12 => s.macData ++ s.srcAddr.extractLsb' 0 24
  | .hdr1, 13 => byte s.srcAddr 3 ++ s.macData ++ s.srcAddr.extractLsb' 0 16
  | .hdr1, 14 => s.srcAddr.extractLsb' 16 16 ++ s.macData ++ byte s.srcAddr 0
  | .hdr1, 15 => s.srcAddr.extractLsb' 8 24 ++ s.macData
  | _, _ => s.srcAddr

/-- `src_port` after a clock edge. -/
def nextSrcPort (s : RxMac) : BitVec 16 :=
  match s.rxState, s.hdrProgress.toNat with
  | .hdr2, 0 => s.macData ++ byte s.srcPort 0
  | .hdr2, 1 => byte s.srcPort 1 ++ s.macData
  | _, _ => s.srcPort

/-! ## The packet check flags -/

/-- `app_ok` after a clock edge. -/
def nextAppOk (s : RxMac) : Bool :=
  match s.rxStateR with
  | .idle => true
  | .hdr0 => s.appOk && s.hdr0AppOkR
  | .hdr1 => s.appOk && s.hdr1AppOkR
  | .hdr2 => s.appOk && s.hdr2AppOkR
  | .data => s.appOk

/-- `cpu_ok` after a clock edge. -/
def nextCpuOk (p : LocalParams) (s : RxMac) : Bool :=
  if p.disCpu then false
  else
    match s.rxStateR with
    | .idle => true
    | .hdr0 => s.cpuOk && s.hdr0CpuOkR
    | .hdr1 => s.cpuOk && s.hdr1CpuOkR
    | .hdr2 => s.cpuOk && s.hdr2CpuOkR
    | .data => if s.appOk then false else s.cpuOk

/-- A clock edge. -/
def edge (p : LocalParams) (s : RxMac) (i : GbeRxIn) : RxMac where
  rxState := s.nextRxState i
  hdrProgress := s.nextHdrProgress i
  icmpUnsearchable := s.nextIcmp
  macData := i.macRxData
  macDvld := i.macRxDvld
  macRxGoodframeReg := i.macRxGoodframe
  macRxBadframeReg := i.macRxBadframe
  macDataAligned := s.macData
  macDvldAligned := s.macDvld
  srcAddr := s.nextSrcAddr
  srcPort := s.nextSrcPort
  cpuOk := s.nextCpuOk p
  appOk := s.nextAppOk
  hdr0CpuOk := !(s.rxState == .hdr0 && hdr0MacWrong p s.hdrProgress s.macData && !p.cpuPromiscuous)
  hdr0AppOk := s.localEnableRR && !(s.rxState == .hdr0 &&
    (hdr0MacWrong p s.hdrProgress s.macData || hdr0TypeWrong s.hdrProgress s.macData))
  hdr1CpuOk := true
  hdr1AppOk := s.localEnableRR && !(s.rxState == .hdr1 && hdr1Wrong p s.hdrProgress s.macData)
  hdr2CpuOk := true
  hdr2AppOk := s.localEnableRR && !(s.rxState == .hdr2 && hdr2Wrong p s.hdrProgress s.macData)
  hdr0CpuOkR := s.hdr0CpuOk
  hdr0AppOkR := s.hdr0AppOk
  hdr1CpuOkR := s.hdr1CpuOk
  hdr1AppOkR := s.hdr1AppOk
  hdr2CpuOkR := s.hdr2CpuOk
  hdr2AppOkR := s.hdr2AppOk
  rxStateR := s.rxState
  localEnableR := i.localEnable
  localEnableRR := s.localEnableR

/-- `packet_eof` -/
def packetEof (s : RxMac) : Bool := s.macDvldAligned && !s.macDvld

end RxMac

/-! ## The application WR interface -/

namespace RxApp

/-- `rx_overrun` and `app_rst_ack` after a clock edge; the last of several assignments counts. -/
def nextOverrun (s : RxApp) (i : GbeRxIn) : Bool × Bool :=
  if s.appRstAck && !s.appRstGotRR then (false, false)
  else
    (if i.packetFifoOverflow || i.ctrlFifoOverflow then true else s.rxOverrun,
      if s.appRstGotRR then true else s.appRstAck)

/-- `app_state` after a clock edge. -/
def nextAppState (s : RxApp) (mac : RxMac) : AppState :=
  match s.appState with
  | .running => if s.rxOverrun then .blocked else .running
  | .blocked => if !s.rxOverrun && !mac.macDvldAligned then .running else .blocked

/-- A clock edge. -/
def edge (s : RxApp) (mac : RxMac) (i : GbeRxIn) : RxApp where
  rxOverrun := (s.nextOverrun i).1
  appRstAck := (s.nextOverrun i).2
  appRstGotR := i.appRstGot
  appRstGotRR := s.appRstGotR
  appState := s.nextAppState mac
  packetDvld := mac.rxState == .data
  packetFirst := mac.rxState == .data && mac.rxStateR != .data

end RxApp

/-! ## The CPU interface -/

namespace RxCpu

/-- A clock edge of the state machine. -/
def next (s : RxCpu) (mac : RxMac) (i : GbeRxIn) : RxCpu :=
  match s.cpuState with
  | .idle =>
    { s with
      cpuSizeReg := 0
      cpuInvalidate := false
      cpuCounter := 0
      cpuReadyReg := false
      cpuState := if mac.macDvld then .data else .idle }
  | .data =>
    if !mac.macDvld then { s with cpuState := .validate, cpuSizeReg := s.cpuCounter + 1 }
    else
      { s with
        cpuInvalidate := if s.cpuCounter == 0x7ff#11 || !mac.cpuOk then true else s.cpuInvalidate
        cpuCounter := s.cpuCounter + 1 }
  | .validate =>
    -- a frame to invalidate changes the state once more, but not what the good one sets
    { s with
      cpuReadyReg := if mac.macRxGoodframeReg then true else s.cpuReadyReg
      cpuState :=
        if mac.macRxBadframeReg || s.cpuInvalidate then .idle
        else if mac.macRxGoodframeReg then .handshake
        else .validate }
  | .handshake =>
    { s with
      cpuReadyReg := if i.cpuAck && s.cpuReadyReg then false else s.cpuReadyReg
      cpuSizeReg := if i.cpuAck && s.cpuReadyReg then 0 else s.cpuSizeReg
      cpuBufferSelReg := if i.cpuAck && s.cpuReadyReg then !s.cpuBufferSelReg else s.cpuBufferSelReg
      cpuState := if !s.cpuReadyReg && !i.cpuAck then .idle else .handshake }

/-- A clock edge; the CPU interface is killed when `DIS_CPU` is set. -/
def edge (p : LocalParams) (s : RxCpu) (mac : RxMac) (i : GbeRxIn) : RxCpu :=
  if p.disCpu then
    { s.next mac i with
      cpuState := .idle
      cpuBufferSelReg := false
      cpuCounter := 0
      cpuInvalidate := true
      cpuReadyReg := false }
  else s.next mac i

/-- `cpu_wr_en` -/
def cpuWrEn (s : RxCpu) : Bool := s.cpuState == .data

end RxCpu

/-! ## The whole module -/

namespace GbeRx

/-- `always @(posedge mac_clk)` of the whole module -/
def edge (p : LocalParams) (s : GbeRx) (i : GbeRxIn) : GbeRx where
  mac := s.mac.edge p i
  app := s.app.edge s.mac i
  cpu := s.cpu.edge p s.mac i

/-- What is written into the packet FIFO: `packet_eof` and a byte. -/
def packetFifoWr (s : GbeRx) : List (Bool × BitVec 8) :=
  if s.app.packetDvld && s.app.appState == .running && s.mac.appOk then
    [(s.mac.packetEof, s.mac.macDataAligned)]
  else []

/-- What is written into the control FIFO: the source port and the source address. -/
def ctrlFifoWr (s : GbeRx) : List (BitVec 16 × BitVec 32) :=
  if s.app.appState == .running && s.app.packetFirst && s.mac.appOk then
    [(s.mac.srcPort, s.mac.srcAddr)]
  else []

end GbeRx

end MlibDevel.Onegbe
