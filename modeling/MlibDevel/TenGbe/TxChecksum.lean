import MlibDevel.TenGbe.TxBytes
import MlibDevel.Lib.OnesComplement

/-!
# The checksum of the IP header

The nine words of the header besides the checksum are added in the 18 bits of `ip_checksum_0`, where
the sum of nine words of 16 bits does not fit.  The pipeline is in time for the word that holds the
checksum, so the checksum is right if and only if the sum is below 2¹⁸ (`checksummed_iff`).
-/

namespace MlibDevel.TenGbe

open Lib

/-- The words of the IP header, in what the MAC gets. -/
def sentIpHeader (ms : List MacTx) : List (BitVec 16) :=
  words16 (((ms.flatMap MacTx.bytes).drop 14).take 20)

/-- The checksum is that of the header without it, and the sum of all words is `0xffff`. -/
def Checksummed (header : List (BitVec 16)) : Prop :=
  header[5]? = some (internetChecksum (header.set 5 0)) ∧ onesSum header = 0xffff

/-- The sum of the two halves of an address. -/
def halves (ip : BitVec 32) : Nat := ip.toNat / 65536 + ip.toNat % 65536

/-- The sum of the other nine words of the header of a frame. -/
def TxParams.exactSum (p : TxParams) (c : Ctrl) : Nat :=
  0x4500 + c.ipLength.toNat + 0x4000 + (p.ttl.toNat * 256 + 0x11) + halves p.localIp + halves c.ip

/-! ## The sums -/

theorem toNat_low_half (ip : BitVec 32) : (ip.extractLsb' 0 16).toNat = ip.toNat % 65536 := by
  rw [BitVec.extractLsb'_toNat]
  rfl

theorem toNat_high_half (ip : BitVec 32) : (ip.extractLsb' 16 16).toNat = ip.toNat / 65536 := by
  have := ip.isLt
  rw [BitVec.extractLsb'_toNat, Nat.shiftRight_eq_div_pow]
  omega

theorem toNat_ttl_udp (ttl : BitVec 8) : (ttl ++ 0x11#8).toNat = ttl.toNat * 256 + 0x11 := by
  rw [BitVec.toNat_append, ← Nat.shiftLeft_add_eq_or_of_lt (by decide), Nat.shiftLeft_eq]
  rfl

/-- A word of 16 bits in 18 bits. -/
theorem toNat_wide (x : BitVec 16) : (x.setWidth 18).toNat = x.toNat :=
  BitVec.toNat_setWidth_of_le (by omega)

theorem toNat_headerSum (p : TxParams) (c : Ctrl) :
    (p.headerSum c).toNat = p.exactSum c % 262144 := by
  have hzero : (0 : BitVec 18).toNat = 0 := rfl
  have hversion : (0x4500#16).toNat = 0x4500 := rfl
  have hflags : (0x4000#16).toNat = 0x4000 := rfl
  simp only [TxParams.headerSum, BitVec.toNat_add, Nat.mod_add_mod, toNat_wide, toNat_low_half,
    toNat_high_half, toNat_ttl_udp, hzero, hversion, hflags]
  unfold TxParams.exactSum halves
  congr 1
  omega

/-- Of a sum of 18 bits the two stages add all carries. -/
theorem toNat_invertSum (sum : BitVec 18) :
    (invertSum (foldCarries sum)).toNat = 65535 - foldSum sum.toNat := by
  have hhigh : sum.toNat / 65536 < 4 := by
    have := sum.isLt
    omega
  have hlow : sum.toNat % 65536 < 65536 := Nat.mod_lt _ (by omega)
  have hfold : (foldCarries sum).toNat = sum.toNat % 65536 + sum.toNat / 65536 := by
    simp only [foldCarries, BitVec.toNat_add, BitVec.toNat_setWidth, BitVec.extractLsb'_toNat,
      Nat.shiftRight_eq_div_pow, Nat.reducePow, Nat.div_one]
    simp (disch := omega) only [Nat.mod_eq_of_lt]
  -- the second stage adds a carry of at most one
  have hcarry : (sum.toNat % 65536 + sum.toNat / 65536) / 65536 < 2 := by omega
  have hlast : (sum.toNat % 65536 + sum.toNat / 65536) % 65536
      + (sum.toNat % 65536 + sum.toNat / 65536) / 65536 < 65536 := by omega
  simp only [invertSum, BitVec.toNat_not, BitVec.toNat_add, BitVec.toNat_setWidth,
    BitVec.extractLsb'_toNat, Nat.shiftRight_eq_div_pow, Nat.reducePow, Nat.div_one, hfold]
  simp (disch := omega) only [Nat.mod_eq_of_lt]
  unfold foldSum
  split <;> omega

/-! ## The header -/

theorem words16_append_16 (x : BitVec 16) (bs : List (BitVec 8)) :
    words16 (bytesBE x ++ bs) = x :: words16 bs := by
  rw [bytesBE_16]
  show (byte x 1 ++ byte x 0) :: words16 bs = _
  rw [bytes_16]

theorem words16_append_32 (x : BitVec 32) (bs : List (BitVec 8)) :
    words16 (bytesBE x ++ bs) = x.extractLsb' 16 16 :: x.extractLsb' 0 16 :: words16 bs := by
  rw [bytesBE_32]
  show (byte x 3 ++ byte x 2) :: (byte x 1 ++ byte x 0) :: words16 bs = _
  rw [byte, extract_append_byte, byte, extract_append_byte]

theorem words16_ipHeader (p : TxParams) (c : Ctrl) (ipLength ipChecksum : BitVec 16) :
    words16 (ipHeader p c ipLength ipChecksum)
      = [0x4500, ipLength, 0, 0x4000, p.ttl ++ 0x11#8, ipChecksum, p.localIp.extractLsb' 16 16,
        p.localIp.extractLsb' 0 16, c.ip.extractLsb' 16 16, c.ip.extractLsb' 0 16] := by
  have hlast := words16_append_32 c.ip []
  rw [List.append_nil] at hlast
  have hudp (bs : List (BitVec 8)) :
      words16 ([p.ttl, 0x11#8] ++ bs) = (p.ttl ++ 0x11#8) :: words16 bs := rfl
  simp only [ipHeader, List.append_assoc, words16_append_16, words16_append_32, hudp, hlast]
  rfl

/-- The IP header of the bytes sent. -/
theorem words16_frame (p : TxParams) (c : Ctrl) (bs : List (BitVec 8)) :
    words16 (((frameHeader p c ++ bs).drop 14).take 20)
      = words16 (ipHeader p c c.ipLength (p.ipChecksum c)) := rfl

/-- The checksum of a header, by the sum of its other words. -/
theorem checksummed_ipHeader_iff (p : TxParams) (c : Ctrl) (ipChecksum : BitVec 16) :
    Checksummed (words16 (ipHeader p c c.ipLength ipChecksum)) ↔
      ipChecksum.toNat = 65535 - foldSum (p.exactSum c) ∧
        foldSum (p.exactSum c + ipChecksum.toNat) = 65535 := by
  have hversion : (0x4500 : BitVec 16).toNat = 0x4500 := rfl
  have hzero : (0 : BitVec 16).toNat = 0 := rfl
  have hflags : (0x4000 : BitVec 16).toNat = 0x4000 := rfl
  have hones : (0xffff : BitVec 16).toNat = 65535 := rfl
  rw [Checksummed, words16_ipHeader, ← BitVec.toNat_inj, toNat_onesSum, hones]
  refine and_congr ?_ ?_
  · show some ipChecksum = some _ ↔ _
    rw [Option.some_inj, ← BitVec.toNat_inj, toNat_internetChecksum]
    simp only [List.set_cons_succ, List.set_cons_zero, List.map_cons, List.map_nil, List.sum_cons,
      List.sum_nil, hversion, hzero, hflags, toNat_low_half, toNat_high_half, toNat_ttl_udp]
    unfold TxParams.exactSum halves
    refine Iff.of_eq ?_
    congr 3
    omega
  · simp only [List.map_cons, List.map_nil, List.sum_cons, List.sum_nil, hversion, hzero, hflags,
      toNat_low_half, toNat_high_half, toNat_ttl_udp]
    unfold TxParams.exactSum halves
    refine Iff.of_eq ?_
    congr 2
    omega

/-- The pipeline loses a carry of 2¹⁸, and such a carry makes a difference. -/
theorem ipChecksum_right_iff (p : TxParams) (c : Ctrl) :
    Checksummed (words16 (ipHeader p c c.ipLength (p.ipChecksum c))) ↔ p.exactSum c < 262144 := by
  have hlen := c.ipLength.isLt
  have httl := p.ttl.isLt
  have hlocal := p.localIp.isLt
  have hip := c.ip.isLt
  have hbound : p.exactSum c < 2 * 262144 ∧ 0 < p.exactSum c := by
    unfold TxParams.exactSum halves
    omega
  rw [checksummed_ipHeader_iff, TxParams.ipChecksum, toNat_invertSum, toNat_headerSum]
  generalize p.exactSum c = sum at hbound
  unfold foldSum
  constructor
  · rintro ⟨heq, -⟩
    -- the carry counts 4 modulo 65535
    by_contra hlarge
    have hmod : sum % 262144 = sum - 262144 := by omega
    rw [hmod] at heq
    split at heq <;> split at heq <;> omega
  · intro hsmall
    rw [Nat.mod_eq_of_lt hsmall]
    refine ⟨rfl, ?_⟩
    split <;> split <;> omega

/-- The IP header that is sent. -/
theorem TxSys.Idle.sent_ipHeader {p : TxParams} {s : TxSys} {c : Ctrl} {ws : List (BitVec 64)}
    (h : Idle s) (hctrl : s.ctrlFifo.head? = some c) (hpacket : ws <+: s.packetFifo)
    (hsize : (c.size - 1).toNat + 1 = ws.length) (m : FrameCycles s ws.length) :
    sentIpHeader (s.sent p m.cycles) = words16 (ipHeader p c c.ipLength (p.ipChecksum c)) := by
  obtain ⟨hsent, -⟩ := h.sent_bytes (p := p) hctrl hpacket hsize m
  rw [sentIpHeader, hsent, words16_frame]

/--
**The checksum of a frame that is sent is right if and only if** the sum of the words of its IP
header besides the checksum is below 2¹⁸.
-/
theorem TxSys.Idle.checksummed_iff {p : TxParams} {s : TxSys} {c : Ctrl} {ws : List (BitVec 64)}
    (h : Idle s) (hctrl : s.ctrlFifo.head? = some c) (hpacket : ws <+: s.packetFifo)
    (hsize : (c.size - 1).toNat + 1 = ws.length) (m : FrameCycles s ws.length) :
    Checksummed (sentIpHeader (s.sent p m.cycles)) ↔ p.exactSum c < 262144 := by
  rw [h.sent_ipHeader (p := p) hctrl hpacket hsize m]
  exact ipChecksum_right_iff p c

/-- A frame of one word. -/
def TxSys.oneFrame (ip : BitVec 32) : TxSys := .resting [1] [⟨1, 8888, ip⟩]

theorem TxSys.oneFrame_idle (ip : BitVec 32) : Idle (oneFrame ip) := ⟨rfl, rfl, rfl⟩

theorem TxSys.oneFrame_packet (ip : BitVec 32) : [1] <+: (oneFrame ip).packetFifo :=
  List.prefix_refl [1]

/-- From 192.168.0.1 to 192.168.0.2 the checksum is right. -/
theorem checksummed_iff_oneFrame :
    Checksummed (sentIpHeader ((TxSys.oneFrame 0xc0a80002).sent (.station 0xc0a80001)
      (FrameCycles.delayed (.oneFrame 0xc0a80002) 1 0).cycles)) := by
  have hsum : (TxParams.station 0xc0a80001).exactSum ⟨1, 8888, 0xc0a80002⟩ < 262144 := by decide
  exact (TxSys.Idle.checksummed_iff (TxSys.oneFrame_idle _) rfl (TxSys.oneFrame_packet _) rfl
    (.delayed (.oneFrame 0xc0a80002) 1 0)).mpr hsum

/-- From 192.168.255.254 to 192.168.255.253 it is not. -/
theorem oneFrame_not_checksummed :
    ¬Checksummed (sentIpHeader ((TxSys.oneFrame 0xc0a8fffd).sent (.station 0xc0a8fffe)
      (FrameCycles.delayed (.oneFrame 0xc0a8fffd) 1 0).cycles)) := by
  have hsum : ¬(TxParams.station 0xc0a8fffe).exactSum ⟨1, 8888, 0xc0a8fffd⟩ < 262144 := by decide
  have hheader := (TxSys.oneFrame_idle 0xc0a8fffd).sent_ipHeader (p := .station 0xc0a8fffe) rfl
    (TxSys.oneFrame_packet _) rfl (.delayed (.oneFrame 0xc0a8fffd) 1 0)
  intro hck
  rw [hheader] at hck
  exact hsum ((ipChecksum_right_iff _ _).mp hck)

end MlibDevel.TenGbe
