import MlibDevel.Lib.Octets

/-!
# Reception of a frame (`tge_rx.v`): the primary state machine

The words of the MAC pass two registers, `_z` and `R`.  The state machine looks at the header words
while they are in the first of them, and finds out whether the frame is one for the application, one
for the CPU, or neither.
-/

namespace MlibDevel.TenGbe

open Lib

/-- A word in the cycle in which the MAC delivers it; its byte 0 is the first on the wire. -/
structure MacRx where
  data : BitVec 64
  dataValid : BitVec 8
  goodFrame : Bool
  badFrame : Bool
  deriving DecidableEq, Repr

/-- `local_mac`, `local_ip`, `local_port`, `local_mc_recv_ip`, `local_mc_recv_ip_mask` -/
structure LocalParams where
  mac : BitVec 48
  ip : BitVec 32
  port : BitVec 16
  mcRecvIp : BitVec 32
  mcRecvIpMask : BitVec 32
  deriving DecidableEq, Repr

/-- `RX_IDLE` to `RX_DATA` -/
inductive RxState
  | idle
  | hdrWord2
  | hdrWord3
  | hdrWord4
  | hdrWord5
  | hdrWord6
  | data
  deriving DecidableEq, Repr

/-- The registers of the primary state machine and the MAC signals in `_z` and `R`. -/
structure RxFrame where
  macRxZ : MacRx
  macRxDataR : BitVec 64
  macRxGoodFrameR : Bool
  macRxBadFrameR : Bool
  rxControlData : BitVec 48
  rxState : RxState
  cpuFrame : Bool
  applicationFrame : Bool
  deriving DecidableEq, Repr

/-- The inputs of the primary state machine. -/
structure RxIn where
  params : LocalParams
  localEnableRetimed : Bool
  phyRxUp : Bool
  mac : MacRx
  deriving DecidableEq, Repr

namespace RxFrame

variable (s : RxFrame)

/-- `destination_mac` -/
def destinationMac : BitVec 48 :=
  byte s.macRxZ.data 0 ++ byte s.macRxZ.data 1 ++ byte s.macRxZ.data 2 ++
    byte s.macRxZ.data 3 ++ byte s.macRxZ.data 4 ++ byte s.macRxZ.data 5

/-- `destination_port` -/
def destinationPort : BitVec 16 := byte s.macRxZ.data 4 ++ byte s.macRxZ.data 5

/-- `destination_ip` -/
def destinationIp : BitVec 32 :=
  byte s.macRxDataR 6 ++ byte s.macRxDataR 7 ++ byte s.macRxZ.data 0 ++ byte s.macRxZ.data 1

/-- The word in `_z` starts a frame. -/
def frameStarts (i : RxIn) : Bool := s.macRxZ.dataValid == 0xff#8 && i.phyRxUp

/-- Neither our MAC address nor broadcast nor multicast -/
def macMismatch (p : LocalParams) : Bool :=
  s.destinationMac != p.mac && s.destinationMac != 0xffffffffffff#48 &&
    s.destinationMac.extractLsb' 24 24 != 0x01005e#24

/-- Not IPv4, or with options -/
def ipv4Mismatch : Bool :=
  byte s.macRxZ.data 4 ++ byte s.macRxZ.data 5 != 0x0800#16 || byte s.macRxZ.data 6 != 0x45#8

/-- Neither our IP address nor a multicast address that is received -/
def ipMismatch (p : LocalParams) : Bool :=
  s.destinationIp != p.ip && s.destinationIp != p.mcRecvIp &&
    s.destinationIp &&& p.mcRecvIpMask != p.mcRecvIp &&& p.mcRecvIpMask

/-- The state after a clock edge. -/
def nextState (i : RxIn) : RxState :=
  match s.rxState with
  | .idle =>
    if s.frameStarts i then
      if s.macMismatch i.params then .data else .hdrWord2
    else .idle
  | .hdrWord2 => if s.ipv4Mismatch then .data else .hdrWord3
  | .hdrWord3 => if byte s.macRxZ.data 7 != 0x11#8 then .data else .hdrWord4
  | .hdrWord4 => .hdrWord5
  | .hdrWord5 =>
    if s.destinationPort != i.params.port || s.ipMismatch i.params then .data else .hdrWord6
  | .hdrWord6 => .data
  | .data => if s.macRxGoodFrameR || s.macRxBadFrameR then .idle else .data

/-- `cpu_frame` after a clock edge. -/
def nextCpuFrame (i : RxIn) : Bool :=
  match s.rxState with
  | .idle => !(s.frameStarts i && s.macMismatch i.params)
  | _ => s.cpuFrame

/-- `application_frame` after a clock edge. -/
def nextApplicationFrame (i : RxIn) : Bool :=
  if !i.localEnableRetimed then false
  else
    match s.rxState with
    | .idle => !(s.frameStarts i && s.macMismatch i.params)
    | .hdrWord2 => s.applicationFrame && !s.ipv4Mismatch
    | .hdrWord3 => s.applicationFrame && !(byte s.macRxZ.data 7 != 0x11#8)
    | .hdrWord5 =>
      s.applicationFrame && !(s.destinationPort != i.params.port || s.ipMismatch i.params)
    | _ => s.applicationFrame

/-- `rx_control_data` after a clock edge: the source port and the source IP address. -/
def nextControlData : BitVec 48 :=
  match s.rxState with
  | .hdrWord4 =>
    s.rxControlData.extractLsb' 32 16 ++
      (byte s.macRxZ.data 2 ++ byte s.macRxZ.data 3 ++ byte s.macRxZ.data 4 ++ byte s.macRxZ.data 5)
  | .hdrWord5 => (byte s.macRxZ.data 2 ++ byte s.macRxZ.data 3) ++ s.rxControlData.extractLsb' 0 32
  | _ => s.rxControlData

/-- `always @(posedge mac_clk)` of the MAC registers and of the primary state machine -/
def edge (i : RxIn) : RxFrame where
  macRxZ := i.mac
  macRxDataR := s.macRxZ.data
  macRxGoodFrameR := s.macRxZ.goodFrame
  macRxBadFrameR := s.macRxZ.badFrame
  rxControlData := s.nextControlData
  rxState := s.nextState i
  cpuFrame := s.nextCpuFrame i
  applicationFrame := s.nextApplicationFrame i

/-- An edge with `mac_rst` high. -/
def reset (mac : MacRx) : RxFrame :=
  { s with
    macRxZ := mac
    macRxDataR := s.macRxZ.data
    macRxGoodFrameR := s.macRxZ.goodFrame
    macRxBadFrameR := s.macRxZ.badFrame
    rxControlData := 0
    rxState := .idle }

variable {s} in
/-- A frame ends only with a flag. -/
theorem nextState_ne_idle (i : RxIn) (hs : s.rxState ≠ .idle)
    (hf : (s.macRxGoodFrameR || s.macRxBadFrameR) = false) : s.nextState i ≠ .idle := by
  unfold nextState
  cases hst : s.rxState with
  | idle => exact absurd hst hs
  | hdrWord2 =>
    show (if s.ipv4Mismatch then RxState.data else .hdrWord3) ≠ .idle
    split <;> simp
  | hdrWord3 =>
    show (if byte s.macRxZ.data 7 != 0x11#8 then RxState.data else .hdrWord4) ≠ .idle
    split <;> simp
  | hdrWord4 => simp
  | hdrWord5 =>
    show (if s.destinationPort != i.params.port || s.ipMismatch i.params then RxState.data
      else .hdrWord6) ≠ .idle
    split <;> simp
  | hdrWord6 => simp
  | data => simp [hf]

/-! ## What the state machine tells the two interfaces -/

/-- A frame that the application does not get, for us. -/
def validCpuFrame : Bool := !s.applicationFrame && s.cpuFrame

/-- `cpu_data`: the word in `R`, its first byte first. -/
def cpuData : BitVec 64 :=
  byte s.macRxDataR 0 ++ byte s.macRxDataR 1 ++ byte s.macRxDataR 2 ++ byte s.macRxDataR 3 ++
    byte s.macRxDataR 4 ++ byte s.macRxDataR 5 ++ byte s.macRxDataR 6 ++ byte s.macRxDataR 7

/-- `cpu_dvld` -/
def cpuDvld : Bool := s.rxState != .idle

/-- `cpu_frame_invalid` -/
def cpuFrameInvalid : Bool := s.macRxBadFrameR || s.macRxGoodFrameR && !s.validCpuFrame

/-- `cpu_frame_valid` -/
def cpuFrameValid : Bool := s.macRxGoodFrameR && s.validCpuFrame

/-- `app_data`: the last six bytes of the word in `R` and the first two of the word in `_z`. -/
def appData : BitVec 64 :=
  byte s.macRxDataR 2 ++ byte s.macRxDataR 3 ++ byte s.macRxDataR 4 ++ byte s.macRxDataR 5 ++
    byte s.macRxDataR 6 ++ byte s.macRxDataR 7 ++ byte s.macRxZ.data 0 ++ byte s.macRxZ.data 1

/-- `app_dvld` -/
def appDvld : Bool :=
  s.applicationFrame && s.rxState == .data && !(s.macRxGoodFrameR || s.macRxBadFrameR)

/-- `app_goodframe` -/
def appGoodframe : Bool := s.applicationFrame && s.macRxZ.goodFrame

/-- `app_badframe` -/
def appBadframe : Bool := s.applicationFrame && s.macRxZ.badFrame

/-- `app_source_ip` -/
def appSourceIp : BitVec 32 := s.rxControlData.extractLsb' 0 32

/-- `app_source_port` -/
def appSourcePort : BitVec 16 := s.rxControlData.extractLsb' 32 16

end RxFrame

end MlibDevel.TenGbe
