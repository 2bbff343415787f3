import MlibDevel.TenGbe.TxFrame
import Mathlib.Data.List.Basic

/-!
# The bytes of a frame

What the MAC gets for an entry of the control FIFO, byte by byte: an Ethernet, an IP and a UDP
header and the data, each number with its most significant byte first.
-/

namespace MlibDevel.TenGbe

open Lib

/-- The bytes of a word that are valid; the MAC sends the least significant one first. -/
def MacTx.bytes (m : MacTx) : List (BitVec 8) :=
  ((List.range 8).filter fun i => m.dataValid.getLsbD i).map (byte m.data)

/-- The bytes of a number, the most significant one first. -/
def bytesBE {w : Nat} (x : BitVec w) : List (BitVec 8) := (List.range (w / 8)).reverse.map (byte x)

/-- The Ethernet header of a frame. -/
def ethernetHeader (p : TxParams) (c : Ctrl) : List (BitVec 8) :=
  bytesBE (p.destMac c.ip) ++ bytesBE p.localMac ++ bytesBE 0x0800#16

/-- The IP header of a frame: no options, no fragments, UDP. -/
def ipHeader (p : TxParams) (c : Ctrl) (ipLength ipChecksum : BitVec 16) : List (BitVec 8) :=
  bytesBE 0x4500#16 ++ bytesBE ipLength ++ bytesBE 0x0000#16 ++ bytesBE 0x4000#16 ++
    [p.ttl, 0x11#8] ++ bytesBE ipChecksum ++ bytesBE p.localIp ++ bytesBE c.ip

/-- The UDP header of a frame, without a checksum. -/
def udpHeader (p : TxParams) (c : Ctrl) (udpLength : BitVec 16) : List (BitVec 8) :=
  bytesBE p.localPort ++ bytesBE c.port ++ bytesBE udpLength ++ bytesBE 0x0000#16

/-- All the headers of a frame. -/
def frameHeader (p : TxParams) (c : Ctrl) : List (BitVec 8) :=
  ethernetHeader p c ++ ipHeader p c c.ipLength (p.ipChecksum c) ++ udpHeader p c c.udpLength

/-! ## Words and bytes -/

theorem bytesBE_16 (x : BitVec 16) : bytesBE x = [byte x 1, byte x 0] := rfl

theorem bytesBE_32 (x : BitVec 32) : bytesBE x = [byte x 3, byte x 2, byte x 1, byte x 0] := rfl

theorem bytesBE_48 (x : BitVec 48) :
    bytesBE x = [byte x 5, byte x 4, byte x 3, byte x 2, byte x 1, byte x 0] := rfl

theorem bytesBE_64 (x : BitVec 64) :
    bytesBE x = [byte x 7, byte x 6, byte x 5, byte x 4, byte x 3, byte x 2, byte x 1,
      byte x 0] := by
  simp [bytesBE, List.range_succ]

theorem bytes_full (d : BitVec 64) :
    MacTx.bytes ⟨d, 0xff⟩
      = [byte d 0, byte d 1, byte d 2, byte d 3, byte d 4, byte d 5, byte d 6, byte d 7] := by
  have hall : (List.range 8).filter (fun i => (0xff : BitVec 8).getLsbD i)
      = [0, 1, 2, 3, 4, 5, 6, 7] := by decide
  rw [MacTx.bytes, hall]
  rfl

theorem bytes_last (d : BitVec 64) : MacTx.bytes ⟨d, 0x03⟩ = [byte d 0, byte d 1] := by
  have htwo : (List.range 8).filter (fun i => (0x03 : BitVec 8).getLsbD i) = [0, 1] := by decide
  rw [MacTx.bytes, htwo]
  rfl

/-- A byte of the lower half of a word. -/
theorem byte_extract (d : BitVec 64) {i : Nat} (hi : i < 2) :
    byte (d.extractLsb' 0 16) i = byte d i := by
  unfold byte
  ext j hj
  simp [BitVec.getElem_extractLsb', BitVec.getLsbD_extractLsb']
  omega

/-- The data, behind two bytes. -/
theorem payload_bytes : ∀ (ws : List (BitVec 64)) (l : BitVec 16),
    (payload l ws).flatMap MacTx.bytes = bytesBE l ++ ws.flatMap bytesBE
  | [], l => by
    rw [payload, List.flatMap_cons, bytes_last]
    simp [TxRegs.dataWord, bytesBE_16]
  | d :: ws, l => by
    have ih := payload_bytes ws (d.extractLsb' 0 16)
    rw [payload, List.flatMap_cons, ih, bytes_full]
    simp [TxRegs.dataWord, bytesBE_16, bytesBE_64, byte_extract]

theorem header_bytes (p : TxParams) (c : Ctrl) (ipLength ipChecksum udpLength : BitVec 16) :
    (header p c ipLength ipChecksum udpLength).flatMap MacTx.bytes ++ bytesBE 0x0000#16
      = ethernetHeader p c ++ ipHeader p c ipLength ipChecksum ++ udpHeader p c udpLength := by
  simp only [header, List.flatMap_cons, List.flatMap_nil, bytes_full, byte_ofBytes_0,
    byte_ofBytes_1, byte_ofBytes_2, byte_ofBytes_3, byte_ofBytes_4, byte_ofBytes_5, byte_ofBytes_6,
    byte_ofBytes_7, ethernetHeader, ipHeader, udpHeader, bytesBE_16, bytesBE_32, bytesBE_48]
  rfl

theorem length_frameHeader (p : TxParams) (c : Ctrl) : (frameHeader p c).length = 14 + 20 + 8 := rfl

theorem length_dataBytes : ∀ ws : List (BitVec 64), (ws.flatMap bytesBE).length = 8 * ws.length
  | [] => rfl
  | d :: ws => by
    have ih := length_dataBytes ws
    rw [List.flatMap_cons, List.length_append, ih, bytesBE_64]
    simp only [List.length_cons, List.length_nil]
    omega

/--
The cycles in which an idle state machine sends a frame of `n` words: it is on, the CPU, which would
take preference, asks for nothing, and the MAC takes the first word after any time.
-/
structure FrameCycles (s : TxSys) (n : Nat) where
  first : TxIn
  waits : List TxIn
  acked : TxIn
  others : List TxIn
  enable : first.localEnableRetimed = true
  noOverflow : first.appOverflowRetimed = false
  cpuIdle : (!s.regs.macCpuAckReg && first.macCpuPending) = false
  noAck : ∀ i ∈ waits, i.macTxAck = false
  ack : acked.macTxAck = true
  length : others.length = n + 5

/-- All these cycles. -/
def FrameCycles.cycles {s : TxSys} {n : Nat} (m : FrameCycles s n) : List TxIn :=
  m.first :: (m.waits ++ m.acked :: m.others)

/-- A cycle of a core that is on, without requests of the CPU or words of the application. -/
def TxIn.quiet (macTxAck : Bool) : TxIn := ⟨true, false, false, 0, 0, macTxAck, [], []⟩

/-- Quiet cycles, with the acknowledgement after `k` of them. -/
def FrameCycles.delayed (s : TxSys) (n k : Nat) : FrameCycles s n where
  first := .quiet false
  waits := List.replicate k (.quiet false)
  acked := .quiet true
  others := List.replicate (n + 5) (.quiet false)
  enable := rfl
  noOverflow := rfl
  cpuIdle := Bool.and_false _
  noAck i hi := by rw [List.eq_of_mem_replicate hi]; rfl
  ack := rfl
  length := List.length_replicate

/-- The bytes sent are those of the frame, and the entry and the words go. -/
theorem TxSys.Idle.sent_bytes {p : TxParams} {s : TxSys} {c : Ctrl} {ws : List (BitVec 64)}
    (h : Idle s) (hctrl : s.ctrlFifo.head? = some c) (hpacket : ws <+: s.packetFifo)
    (hsize : (c.size - 1).toNat + 1 = ws.length) (m : FrameCycles s ws.length) :
    (s.sent p m.cycles).flatMap MacTx.bytes = frameHeader p c ++ ws.flatMap bytesBE ∧
      Idle (s.after p m.cycles) ∧
      (s.after p m.cycles).ctrlFifo = s.ctrlFifo.tail ++ m.cycles.flatMap TxIn.ctrlWr ∧
      (s.after p m.cycles).packetFifo
        = s.packetFifo.drop ws.length ++ m.cycles.flatMap TxIn.packetWr := by
  obtain ⟨hsent, hafter⟩ := h.sent_words (p := p) hctrl hpacket hsize ⟨m.enable, m.noOverflow⟩
    m.cpuIdle m.noAck m.ack m.length
  refine ⟨?_, hafter⟩
  rw [FrameCycles.cycles, hsent, List.flatMap_append, payload_bytes]
  show _ ++ (bytesBE 0x0000#16 ++ _) = _
  rw [← List.append_assoc, header_bytes]
  rfl

/-! ## The lengths -/

/--
The words that can wait: `tx_packet_fifo` is 1024 deep and `tx_fifo_ext`, for large packets, 64, and
each of them holds two more in its output registers.
-/
def packetFifoDepth : Nat := (1024 + 2) + (64 + 2)

/-- The lower 13 bits of a size, times eight. -/
theorem toNat_size_mul_eight (size : BitVec 16) (h : size.toNat < 8192) :
    (size.extractLsb' 0 13 ++ 0#3).toNat = 8 * size.toNat := by
  rw [BitVec.toNat_append, BitVec.extractLsb'_toNat]
  simp only [Nat.shiftRight_zero, BitVec.toNat_ofNat, Nat.zero_mod, Nat.or_zero, Nat.shiftLeft_eq]
  omega

/-- What fits the FIFO fits the length fields. -/
theorem Ctrl.lengths {c : Ctrl} (h : c.size.toNat ≤ packetFifoDepth) :
    c.ipLength.toNat = 20 + 8 + 8 * c.size.toNat ∧ c.udpLength.toNat = 8 + 8 * c.size.toNat := by
  unfold packetFifoDepth at h
  have hmul := toNat_size_mul_eight c.size (by omega)
  unfold Ctrl.ipLength Ctrl.udpLength
  rw [BitVec.toNat_add, BitVec.toNat_add, hmul, BitVec.toNat_ofNat, BitVec.toNat_ofNat]
  omega

/--
**A frame that waits in the FIFOs is sent byte by byte**: 42 bytes of header, with the lengths of
what follows, and the words of the data, most significant byte first.  Its words and its entry go,
and nothing else, so that the next frame is at the front of the FIFOs.
-/
theorem TxSys.Idle.sends_frame {p : TxParams} {s : TxSys} {c : Ctrl} {ws : List (BitVec 64)}
    (h : Idle s) (hctrl : s.ctrlFifo.head? = some c) (hpacket : ws <+: s.packetFifo)
    (hdepth : s.packetFifo.length ≤ packetFifoDepth) (hpos : 1 ≤ ws.length)
    (hsize : c.size = BitVec.ofNat 16 ws.length) (m : FrameCycles s ws.length) :
    (s.sent p m.cycles).flatMap MacTx.bytes = frameHeader p c ++ ws.flatMap bytesBE ∧
      (frameHeader p c).length = 42 ∧ (ws.flatMap bytesBE).length = 8 * ws.length ∧
      c.ipLength.toNat = 20 + 8 + 8 * ws.length ∧ c.udpLength.toNat = 8 + 8 * ws.length ∧
      Idle (s.after p m.cycles) ∧
      (s.after p m.cycles).ctrlFifo = s.ctrlFifo.tail ++ m.cycles.flatMap TxIn.ctrlWr ∧
      (s.after p m.cycles).packetFifo
        = s.packetFifo.drop ws.length ++ m.cycles.flatMap TxIn.packetWr := by
  have hlen := hpacket.length_le
  have htoNat : c.size.toNat = ws.length := by
    unfold packetFifoDepth at hdepth
    rw [hsize, BitVec.toNat_ofNat]
    omega
  have hcount : (c.size - 1).toNat + 1 = ws.length := by
    have hone : (1 : BitVec 16).toNat = 1 := rfl
    rw [BitVec.toNat_sub, hone, htoNat]
    omega
  obtain ⟨hsent, hafter⟩ := h.sent_bytes (p := p) hctrl hpacket hcount m
  obtain ⟨hip, hudp⟩ := Ctrl.lengths (c := c) (by omega)
  rw [htoNat] at hip hudp
  exact ⟨hsent, length_frameHeader p c, length_dataBytes ws, hip, hudp, hafter⟩

/-- A core at rest, with words and entries in its FIFOs. -/
def TxSys.resting (packetFifo : List (BitVec 64)) (ctrlFifo : List Ctrl) : TxSys :=
  ⟨⟨.idle, false, 0, 0, 0, 0, 0, 0, 0, 0, 0, false, 0, 0⟩, packetFifo, ctrlFifo⟩

/-- The parameters of a core with an address. -/
def TxParams.station (localIp : BitVec 32) : TxParams where
  localMac := 0x020203040506
  localIp
  localPort := 10000
  localGateway := 1
  arpCache _ := 0x02020a0b0c0d
  ttl := 128

/-- A frame of two words and one of one word. -/
def TxSys.twoFrames : TxSys :=
  .resting [0x0102030405060708, 9, 10] [⟨2, 8888, 0xc0a80002⟩, ⟨1, 8889, 0xc0a80003⟩]

/-- The first frame is sent, and the second one is left. -/
theorem sends_frame_twoFrames :
    (TxSys.twoFrames.sent (.station 0xc0a80001)
        (FrameCycles.delayed .twoFrames 2 3).cycles).flatMap MacTx.bytes
      = frameHeader (.station 0xc0a80001) ⟨2, 8888, 0xc0a80002⟩ ++
        [1, 2, 3, 4, 5, 6, 7, 8, 0, 0, 0, 0, 0, 0, 0, 9] ∧
    (TxSys.twoFrames.after (.station 0xc0a80001)
        (FrameCycles.delayed .twoFrames 2 3).cycles).packetFifo = [10] := by
  have hfront : [0x0102030405060708, 9] <+: TxSys.twoFrames.packetFifo := ⟨[10], rfl⟩
  obtain ⟨hsent, -, -, -, -, -, -, hpacket⟩ :=
    TxSys.Idle.sends_frame (p := .station 0xc0a80001) (c := ⟨2, 8888, 0xc0a80002⟩) ⟨rfl, rfl, rfl⟩
      rfl hfront (by decide) (by decide) rfl (.delayed .twoFrames 2 3)
  exact ⟨hsent, hpacket⟩

end MlibDevel.TenGbe
