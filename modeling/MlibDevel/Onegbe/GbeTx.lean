import MlibDevel.TenGbe.TxChecksum

/-!
# Transmission of a frame (`gbe_tx.v`)

The bytes of the application wait in a FIFO, and for each of its frames the number of bytes and the
destination in another; both show their first entry (first-word fall-through).  The CPU has a buffer
of its own.

The bytes of the headers come from three multiplexers, each with a register behind it, so the byte
that the MAC gets belongs to the state and the progress of the cycle before.  The first byte stands
until the MAC acknowledges it.
-/

namespace MlibDevel.Onegbe

open Lib
open TenGbe (bytesBE foldCarries invertSum)

/-- The local parameters of `gbe_tx`, with the ARP cache that the CPU fills. -/
structure GbeTxParams where
  localMac : BitVec 48
  localIp : BitVec 32
  localPort : BitVec 16
  localGateway : BitVec 8
  arpCache : BitVec 8 → BitVec 48

/-- An entry of the control FIFO: the number of bytes and the destination. -/
structure TxCtrl where
  size : BitVec 16
  port : BitVec 16
  ip : BitVec 32
  deriving DecidableEq, Repr

/-- `TX_IDLE` to `TX_CPU_DATA` -/
inductive TxState
  | idle
  | appHdr0
  | appHdr1
  | appHdr2
  | appData
  | cpuWait
  | cpuData
  deriving DecidableEq, Repr

/-- The registers of `mac_clk`, and the outputs of the ARP cache and of the CPU buffer. -/
structure GbeTx where
  txState : TxState
  progress : BitVec 6
  txCount : BitVec 16
  txAcked : Bool
  hdrLast : Bool
  cpuBufferSelReg : Bool
  cpuAck : Bool
  cpuAddrReg : BitVec 11
  localEnableR : Bool
  localEnableRR : Bool
  appOverflowR : Bool
  appOverflowRR : Bool
  cpuTxReadyR : Bool
  cpuTxReadyRR : Bool
  ipLength : BitVec 16
  udpLength : BitVec 16
  ipChecksum0 : BitVec 18
  ipChecksum1 : BitVec 17
  ipChecksum : BitVec 16
  hdr0Dat : BitVec 8
  hdr1Dat : BitVec 8
  hdr2Dat : BitVec 8
  txStateZ : TxState
  arpCacheRdData : BitVec 48
  cpuTxBufferRdData : BitVec 8
  deriving DecidableEq, Repr

/-- The inputs in a cycle, with what the application puts into the FIFOs and the CPU buffer. -/
structure GbeTxIn where
  macTxAck : Bool
  localEnable : Bool
  appOverflow : Bool
  cpuTxReady : Bool
  cpuTxSize : BitVec 11
  cpuBuffer : Bool → BitVec 11 → BitVec 8
  packetWr : List (BitVec 8)
  ctrlWr : List TxCtrl

namespace GbeTxParams

/-- `arp_cache_addr` -/
def arpCacheAddr (p : GbeTxParams) (ip : BitVec 32) : BitVec 8 :=
  if ip.extractLsb' 8 24 != p.localIp.extractLsb' 8 24 then p.localGateway else byte ip 0

/-- `ip_checksum_fixed_0`: the sum of the words of the IP header that do not change. -/
def ipChecksumFixed0 (p : GbeTxParams) : BitVec 18 :=
  ((0x8412#16).setWidth 24 + (p.localIp.extractLsb' 16 16).setWidth 24 +
    (p.localIp.extractLsb' 0 16).setWidth 24).setWidth 18

/-- `ip_checksum_fixed`: the sum with all carries. -/
def ipChecksumFixed (p : GbeTxParams) : BitVec 16 :=
  (foldCarries p.ipChecksumFixed0).extractLsb' 0 16 +
    ((foldCarries p.ipChecksumFixed0).extractLsb' 16 1).setWidth 16

end GbeTxParams

namespace GbeTx

/-- `cpu_addr_next` -/
def cpuAddrNext (s : GbeTx) (i : GbeTxIn) : BitVec 11 :=
  if s.txState == .cpuData || i.macTxAck then s.cpuAddrReg + 1 else 0

/-- The bytes of `hdr0_dat`, by `progress`. -/
def hdr0 (p : GbeTxParams) (s : GbeTx) : List (BitVec 8) :=
  let destMac := s.arpCacheRdData
  [byte destMac 5, byte destMac 4, byte destMac 3, byte destMac 2, byte destMac 1, byte destMac 0,
    byte p.localMac 5, byte p.localMac 4, byte p.localMac 3, byte p.localMac 2, byte p.localMac 1,
    byte p.localMac 0, 0x08#8, 0x00#8]

/-- The bytes of `hdr1_dat`. -/
def hdr1 (p : GbeTxParams) (s : GbeTx) (ctrl : TxCtrl) : List (BitVec 8) :=
  [0x45#8, 0x00#8, byte s.ipLength 1, byte s.ipLength 0, 0x00#8, 0x00#8, 0x40#8, 0x00#8, 0xff#8,
    0x11#8, byte s.ipChecksum 1, byte s.ipChecksum 0, byte p.localIp 3, byte p.localIp 2,
    byte p.localIp 1, byte p.localIp 0, byte ctrl.ip 3, byte ctrl.ip 2, byte ctrl.ip 1,
    byte ctrl.ip 0]

/-- The bytes of `hdr2_dat`. -/
def hdr2 (p : GbeTxParams) (s : GbeTx) (ctrl : TxCtrl) : List (BitVec 8) :=
  [byte p.localPort 1, byte p.localPort 0, byte ctrl.port 1, byte ctrl.port 0, byte s.udpLength 1,
    byte s.udpLength 0, 0x00#8, 0x00#8]

/-- A frame of the application can be started. -/
def appStarts (s : GbeTx) (ctrlEmpty : Bool) : Bool :=
  !ctrlEmpty && !s.appOverflowRR && s.localEnableRR

/-- A frame of the CPU can be started. -/
def cpuStarts (s : GbeTx) : Bool := !s.cpuAck && s.cpuTxReadyRR

/-- `tx_state` after a clock edge; of several assignments the last one counts. -/
def nextTxState (s : GbeTx) (ctrlEmpty : Bool) (i : GbeTxIn) : TxState :=
  match s.txState with
  | .idle => if s.cpuStarts then .cpuWait else if s.appStarts ctrlEmpty then .appHdr0 else .idle
  | .appHdr0 => if s.progress == 14 - 1 then .appHdr1 else .appHdr0
  | .appHdr1 => if s.progress == 20 - 1 then .appHdr2 else .appHdr1
  | .appHdr2 => if s.progress == 8 - 1 then .appData else .appHdr2
  | .appData => if s.txCount == 0 then .idle else .appData
  | .cpuWait => if i.macTxAck then .cpuData else .cpuWait
  | .cpuData => if s.txCount == 2 then .idle else .cpuData

/-- `progress` after a clock edge. -/
def nextProgress (s : GbeTx) (i : GbeTxIn) : BitVec 6 :=
  match s.txState with
  | .idle => 1
  | .appHdr0 =>
    if s.progress == 14 - 1 then 0
    else if i.macTxAck || s.txAcked then s.progress + 1
    else s.progress
  | .appHdr1 => if s.progress == 20 - 1 then 0 else s.progress + 1
  | .appHdr2 => s.progress + 1
  | _ => s.progress

/-- `tx_count` after a clock edge; the CPU sends its size in words of 8 bytes. -/
def nextTxCount (s : GbeTx) (ctrl : TxCtrl) (ctrlEmpty : Bool) (i : GbeTxIn) : BitVec 16 :=
  match s.txState with
  | .idle =>
    if s.cpuStarts then 0#2 ++ i.cpuTxSize ++ 0#3
    else if s.appStarts ctrlEmpty then ctrl.size
    else s.txCount
  | .appData => s.txCount - 1
  | .cpuData => s.txCount - 1
  | _ => s.txCount

/-- `tx_acked` after a clock edge. -/
def nextTxAcked (s : GbeTx) (i : GbeTxIn) : Bool :=
  match s.txState with
  | .idle => false
  | .appHdr0 => if i.macTxAck then true else s.txAcked
  | _ => s.txAcked

/-- `always @(posedge mac_clk)` of the whole module -/
def edge (p : GbeTxParams) (s : GbeTx) (ctrlFifo : List TxCtrl) (i : GbeTxIn) : GbeTx :=
  let ctrl := ctrlFifo.headD ⟨0, 0, 0⟩
  { txState := s.nextTxState ctrlFifo.isEmpty i
    progress := s.nextProgress i
    txCount := s.nextTxCount ctrl ctrlFifo.isEmpty i
    txAcked := s.nextTxAcked i
    hdrLast := s.txState == .appHdr2 && s.progress == 8 - 1
    cpuBufferSelReg :=
      if s.txState == .idle && s.cpuStarts then !s.cpuBufferSelReg else s.cpuBufferSelReg
    cpuAck :=
      if s.txState == .idle && s.cpuStarts then true
      else if !s.cpuTxReadyRR then false
      else s.cpuAck
    cpuAddrReg := s.cpuAddrNext i
    localEnableR := i.localEnable
    localEnableRR := s.localEnableR
    appOverflowR := i.appOverflow
    appOverflowRR := s.appOverflowR
    cpuTxReadyR := i.cpuTxReady
    cpuTxReadyRR := s.cpuTxReadyR
    ipLength := ctrl.size + 28#16
    udpLength := ctrl.size + 8#16
    ipChecksum0 :=
      p.ipChecksumFixed.setWidth 18 + s.ipLength.setWidth 18 +
        (ctrl.ip.extractLsb' 16 16).setWidth 18 + (ctrl.ip.extractLsb' 0 16).setWidth 18
    ipChecksum1 := foldCarries s.ipChecksum0
    ipChecksum := invertSum s.ipChecksum1
    hdr0Dat := (s.hdr0 p).getD s.progress.toNat s.hdr0Dat
    hdr1Dat := (s.hdr1 p ctrl).getD s.progress.toNat s.hdr1Dat
    hdr2Dat := (s.hdr2 p ctrl).getD s.progress.toNat s.hdr2Dat
    txStateZ := s.txState
    arpCacheRdData := p.arpCache (p.arpCacheAddr ctrl.ip)
    cpuTxBufferRdData := i.cpuBuffer s.cpuBufferSelReg (s.cpuAddrNext i) }

/-- `packet_fifo_rd` -/
def packetFifoRd (s : GbeTx) : Bool := s.txState == .appData && !s.hdrLast

/-- `ctrl_fifo_rd` -/
def ctrlFifoRd (s : GbeTx) : Bool := s.txState == .appData && s.txCount == 1

/-- `mac_tx_dvld` -/
def macTxDvld (s : GbeTx) : Bool := s.txState != .idle

/-- `mac_tx_data` -/
def macTxData (s : GbeTx) (packetData : BitVec 8) (i : GbeTxIn) : BitVec 8 :=
  match s.txStateZ with
  | .appHdr0 => if i.macTxAck then byte s.arpCacheRdData 5 else s.hdr0Dat
  | .appHdr1 => s.hdr1Dat
  | .appHdr2 => s.hdr2Dat
  | .appData => if s.hdrLast then s.hdr2Dat else packetData
  | _ => s.cpuTxBufferRdData

end GbeTx

/-- The MAC side with its FIFOs. -/
structure GbeTxSys where
  regs : GbeTx
  packetFifo : List (BitVec 8)
  ctrlFifo : List TxCtrl

namespace GbeTxSys

/-- A clock cycle. -/
def step (p : GbeTxParams) (s : GbeTxSys) (i : GbeTxIn) : GbeTxSys where
  regs := s.regs.edge p s.ctrlFifo i
  packetFifo := (if s.regs.packetFifoRd then s.packetFifo.tail else s.packetFifo) ++ i.packetWr
  ctrlFifo := (if s.regs.ctrlFifoRd then s.ctrlFifo.tail else s.ctrlFifo) ++ i.ctrlWr

/-- `mac_tx_data` -/
def macTxData (s : GbeTxSys) (i : GbeTxIn) : BitVec 8 := s.regs.macTxData (s.packetFifo.headD 0) i

end GbeTxSys

/-! ## The headers of a frame -/

namespace TxCtrl

/-- The IP length of a frame. -/
def ipLength (c : TxCtrl) : BitVec 16 := c.size + 28#16

/-- The UDP length of a frame. -/
def udpLength (c : TxCtrl) : BitVec 16 := c.size + 8#16

end TxCtrl

namespace GbeTxParams

/-- The destination MAC address: that of the address in our network, or that of the gateway. -/
def destMac (p : GbeTxParams) (ip : BitVec 32) : BitVec 48 :=
  if ip.extractLsb' 8 24 = p.localIp.extractLsb' 8 24 then p.arpCache (byte ip 0)
  else p.arpCache p.localGateway

/-- The sum of the words of the IP header, in `ip_checksum_0`. -/
def headerSum (p : GbeTxParams) (c : TxCtrl) : BitVec 18 :=
  p.ipChecksumFixed.setWidth 18 + c.ipLength.setWidth 18 + (c.ip.extractLsb' 16 16).setWidth 18 +
    (c.ip.extractLsb' 0 16).setWidth 18

/-- The checksum of a frame. -/
def ipChecksum (p : GbeTxParams) (c : TxCtrl) : BitVec 16 := invertSum (foldCarries (p.headerSum c))

/-- The Ethernet header of a frame. -/
def ethernetHeader (p : GbeTxParams) (c : TxCtrl) : List (BitVec 8) :=
  bytesBE (p.destMac c.ip) ++ bytesBE p.localMac ++ bytesBE 0x0800#16

/-- The IP header of a frame: no options, no fragments, UDP. -/
def ipHeader (p : GbeTxParams) (c : TxCtrl) : List (BitVec 8) :=
  bytesBE 0x4500#16 ++ bytesBE c.ipLength ++ bytesBE 0x0000#16 ++ bytesBE 0x4000#16 ++
    bytesBE 0xff11#16 ++ bytesBE (p.ipChecksum c) ++ bytesBE p.localIp ++ bytesBE c.ip

/-- The UDP header of a frame, without a checksum. -/
def udpHeader (p : GbeTxParams) (c : TxCtrl) : List (BitVec 8) :=
  bytesBE p.localPort ++ bytesBE c.port ++ bytesBE c.udpLength ++ bytesBE 0x0000#16

/-- All the headers of a frame. -/
def frameHeader (p : GbeTxParams) (c : TxCtrl) : List (BitVec 8) :=
  p.ethernetHeader c ++ p.ipHeader c ++ p.udpHeader c

theorem arpCache_addr (p : GbeTxParams) (ip : BitVec 32) :
    p.arpCache (p.arpCacheAddr ip) = p.destMac ip := by
  unfold arpCacheAddr destMac
  by_cases hnet : ip.extractLsb' 8 24 = p.localIp.extractLsb' 8 24
  · rw [if_pos hnet, hnet]
    simp
  · rw [if_neg hnet, if_pos (bne_iff_ne.mpr hnet)]

theorem length_frameHeader (p : GbeTxParams) (c : TxCtrl) :
    (p.frameHeader c).length = 14 + 20 + 8 :=
  rfl

/-! ## The checksum -/

/-- The words of the IP header that do not change. -/
theorem toNat_ipChecksumFixed (p : GbeTxParams) :
    p.ipChecksumFixed.toNat = foldSum (0x8412 + TenGbe.halves p.localIp) := by
  have hlocal := p.localIp.isLt
  have hhigh : ∀ x : BitVec 16, (x.setWidth 24).toNat = x.toNat :=
    fun x => BitVec.toNat_setWidth_of_le (by omega)
  have hsum : p.ipChecksumFixed0.toNat = 0x8412 + TenGbe.halves p.localIp := by
    unfold ipChecksumFixed0 TenGbe.halves
    simp only [BitVec.toNat_setWidth, BitVec.toNat_add, hhigh, TenGbe.toNat_low_half,
      TenGbe.toNat_high_half, BitVec.toNat_ofNat]
    omega
  have hinvert := TenGbe.toNat_invertSum p.ipChecksumFixed0
  have hlt := foldSum_lt (0x8412 + TenGbe.halves p.localIp)
  rw [hsum, invertSum, BitVec.toNat_not] at hinvert
  unfold ipChecksumFixed
  omega

theorem toNat_headerSum (p : GbeTxParams) (c : TxCtrl) :
    (p.headerSum c).toNat
      = foldSum (0x8412 + TenGbe.halves p.localIp) + c.ipLength.toNat + TenGbe.halves c.ip := by
  have hlen := c.ipLength.isLt
  have hip := c.ip.isLt
  have hlt := foldSum_lt (0x8412 + TenGbe.halves p.localIp)
  simp only [headerSum, BitVec.toNat_add, TenGbe.toNat_wide, TenGbe.toNat_low_half,
    TenGbe.toNat_high_half, toNat_ipChecksumFixed]
  unfold TenGbe.halves at *
  omega

theorem words16_ipHeader (p : GbeTxParams) (c : TxCtrl) :
    words16 (p.ipHeader c)
      = [0x4500, c.ipLength, 0, 0x4000, 0xff11, p.ipChecksum c, p.localIp.extractLsb' 16 16,
        p.localIp.extractLsb' 0 16, c.ip.extractLsb' 16 16, c.ip.extractLsb' 0 16] := by
  have hlast := TenGbe.words16_append_32 c.ip []
  rw [List.append_nil] at hlast
  simp only [ipHeader, List.append_assoc, TenGbe.words16_append_16, TenGbe.words16_append_32, hlast]
  rfl

theorem toNat_ipChecksum (p : GbeTxParams) (c : TxCtrl) :
    (p.ipChecksum c).toNat = 65535 - foldSum (0x18411 + (c.ipLength.toNat +
      TenGbe.halves p.localIp + TenGbe.halves c.ip)) := by
  have hcarry := foldSum_carry 0x18411
    (c.ipLength.toNat + TenGbe.halves p.localIp + TenGbe.halves c.ip)
  rw [ipChecksum, TenGbe.toNat_invertSum, toNat_headerSum, Nat.add_assoc, foldSum_foldSum, ← hcarry]
  congr 2
  omega

/-- **The checksum is right**: the sum of all words of the IP header is `0xffff`. -/
theorem onesSum_ipHeader (p : GbeTxParams) (c : TxCtrl) :
    onesSum (words16 (p.ipHeader c)) = 0xffff := by
  have hversion : (0x4500 : BitVec 16).toNat = 0x4500 := rfl
  have hzero : (0 : BitVec 16).toNat = 0 := rfl
  have hflags : (0x4000 : BitVec 16).toNat = 0x4000 := rfl
  have httl : (0xff11 : BitVec 16).toNat = 0xff11 := rfl
  have hones : (0xffff : BitVec 16).toNat = 65535 := rfl
  rw [words16_ipHeader, ← BitVec.toNat_inj, toNat_onesSum, hones]
  simp only [List.map_cons, List.map_nil, List.sum_cons, List.sum_nil, hversion, hzero, hflags,
    httl, TenGbe.toNat_low_half, TenGbe.toNat_high_half, toNat_ipChecksum]
  -- the checksum is what is missing to `0xffff`
  generalize hothers : 0x18411 + (c.ipLength.toNat + TenGbe.halves p.localIp + TenGbe.halves c.ip)
    = others
  have hlt := foldSum_lt others
  have hfold := foldSum_foldSum others (65535 - foldSum others)
  rw [show foldSum others + (65535 - foldSum others) = 65535 by omega] at hfold
  refine Eq.trans ?_ (hfold.symm.trans (foldSum_of_lt (by omega)))
  congr 1
  unfold TenGbe.halves at hothers
  omega

end GbeTxParams

end MlibDevel.Onegbe
