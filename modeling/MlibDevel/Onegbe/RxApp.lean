import MlibDevel.Onegbe.GbeRx
import MlibDevel.Lib.Cycles
import Mathlib.Data.List.Basic
import Mathlib.Data.List.GetD
import Mathlib.Algebra.Group.Nat.Defs

/-!
# Frames for the application (`gbe_rx.v`)

The cycles of a frame are counted from the one in which the MAC delivers its first byte.  Byte `k`
is checked in cycle `k + 1`; the result counts in cycle `k + 3`, under the state of cycle `k + 2`.
So the last byte of a header is checked and the result is dropped.

What is written is right as long as no frame differs from an accepted one in these bytes alone
(`Ready.delivered_iff`).
-/

namespace MlibDevel.Onegbe

open Lib

/-! ## The frames to accept -/

section Accepting

variable (p : LocalParams) (bs : List (BitVec 8))

/-- The destination is our MAC address, byte by byte, or a broadcast. -/
def MacMatches : Prop := ∀ k < 6, byte p.localMac (5 - k) = bs.getD k 0 ∨ bs.getD k 0 = 0xff#8

/-- IP version 4 with no options, UDP, and our IP address. -/
def IpMatches : Prop :=
  bs.getD 14 0 = 0x45#8 ∧ bs.getD 23 0 = 0x11#8 ∧
    ∀ k < 4, bs.getD (30 + k) 0 = byte p.localIp (3 - k)

/-- The bytes of a frame for the application. -/
structure Accepted : Prop where
  mac : MacMatches p bs
  ethertype : bs.getD 12 0 = 0x08#8 ∧ bs.getD 13 0 = 0x00#8
  ip : IpMatches p bs
  port : bs.getD 36 0 = byte p.localPort 1 ∧ bs.getD 37 0 = byte p.localPort 0

theorem accepted_iff : Accepted p bs ↔
    MacMatches p bs ∧ (bs.getD 12 0 = 0x08#8 ∧ bs.getD 13 0 = 0x00#8) ∧ IpMatches p bs ∧
      bs.getD 36 0 = byte p.localPort 1 ∧ bs.getD 37 0 = byte p.localPort 0 :=
  ⟨fun h => ⟨h.mac, h.ethertype, h.ip, h.port⟩, fun ⟨hm, he, hi, hp⟩ => ⟨hm, he, hi, hp⟩⟩

instance : Decidable (MacMatches p bs) := inferInstanceAs (Decidable (∀ k < 6, _))

instance : Decidable (IpMatches p bs) := inferInstanceAs (Decidable (_ ∧ _ ∧ ∀ k < 4, _))

instance : Decidable (Accepted p bs) := decidable_of_iff _ (accepted_iff p bs).symm

end Accepting

/-! ## Frames -/

/--
The cycles of a frame as the MAC delivers it: at least one byte of data, valid without gaps, and
what lies between it and the next frame.  The core is enabled, no FIFO overflows, and the packet is
not ICMP.
-/
structure RxFrame where
  valid : List GbeRxIn
  idle : List GbeRxIn
  dvld : ∀ i ∈ valid, i.macRxDvld = true
  quiet : ∀ i ∈ idle, i.macRxDvld = false
  long : 43 ≤ valid.length
  gap : 12 ≤ idle.length
  enabled : ∀ i ∈ valid ++ idle, i.localEnable = true
  noOverflow : ∀ i ∈ valid ++ idle, i.packetFifoOverflow = false ∧ i.ctrlFifoOverflow = false
  notIcmp : valid[23].macRxData ≠ 0x01#8

/-- A cycle of an enabled core without a byte. -/
def GbeRxIn.quiet : GbeRxIn := ⟨0, false, false, false, true, false, false, false, false⟩

namespace RxFrame

/-- All cycles of a frame. -/
def cycles (f : RxFrame) : List GbeRxIn := f.valid ++ f.idle

/-- The bytes of a frame. -/
def bytes (f : RxFrame) : List (BitVec 8) := f.valid.map GbeRxIn.macRxData

/-- A byte of a frame. -/
def byteAt (f : RxFrame) (k : Nat) : BitVec 8 := f.bytes.getD k 0

/-- The input in a cycle. -/
def input (f : RxFrame) (n : Nat) : GbeRxIn := f.cycles.getD n .quiet

/-- The data behind the headers. -/
def payload (f : RxFrame) : List (BitVec 8) := f.bytes.drop 42

/-- The source port and the source address. -/
def source (f : RxFrame) : BitVec 16 × BitVec 32 :=
  (f.byteAt 34 ++ f.byteAt 35, f.byteAt 26 ++ f.byteAt 27 ++ f.byteAt 28 ++ f.byteAt 29)

/-- Data with the end of the frame marked at the last byte. -/
def marked : List (BitVec 8) → List (Bool × BitVec 8)
  | [] => []
  | [b] => [(true, b)]
  | b :: bs => (false, b) :: marked bs

theorem marked_eq : ∀ bs : List (BitVec 8),
    marked bs = (List.range bs.length).map fun k => (k + 1 == bs.length, bs.getD k 0)
  | [] => rfl
  | [b] => rfl
  | b :: c :: bs => by
    have ih := marked_eq (c :: bs)
    rw [show marked (b :: c :: bs) = (false, b) :: marked (c :: bs) from rfl, ih,
      show (b :: c :: bs).length = (c :: bs).length + 1 from rfl,
      List.range_succ_eq_map (n := (c :: bs).length), List.map_cons, List.map_map]
    simp [Function.comp_def]

/-- What a frame puts into the packet FIFO. -/
def packetData (p : LocalParams) (f : RxFrame) : List (Bool × BitVec 8) :=
  if Accepted p f.bytes then marked f.payload else []

/-- What a frame puts into the control FIFO. -/
def ctrlData (p : LocalParams) (f : RxFrame) : List (BitVec 16 × BitVec 32) :=
  if Accepted p f.bytes then [f.source] else []

/-! ## The input in a cycle -/

variable {p : LocalParams} {s : GbeRx} {f : RxFrame} {n k : Nat}

theorem input_eq (hn : n < f.cycles.length) : f.input n = f.cycles[n] :=
  List.getD_eq_getElem _ _ hn

theorem dvld_of_lt (hn : n < f.valid.length) : (f.input n).macRxDvld = true := by
  have hlt : n < f.cycles.length := by
    rw [cycles, List.length_append]
    omega
  rw [input_eq hlt]
  simp only [cycles, List.getElem_append_left hn]
  exact f.dvld _ (List.getElem_mem hn)

/-- What holds of all cycles of a frame and of a quiet cycle. -/
theorem input_of {P : GbeRxIn → Prop} (h : ∀ i ∈ f.cycles, P i) (hquiet : P .quiet) (n : Nat) :
    P (f.input n) := by
  by_cases hn : n < f.cycles.length
  · rw [input_eq hn]
    exact h _ (List.getElem_mem hn)
  · rw [input, List.getD_eq_default _ _ (by omega)]
    exact hquiet

theorem dvld_of_le (hn : f.valid.length ≤ n) : (f.input n).macRxDvld = false := by
  by_cases hlt : n < f.cycles.length
  · rw [input_eq hlt]
    simp only [cycles, List.getElem_append_right hn]
    exact f.quiet _ (List.getElem_mem _)
  · rw [input, List.getD_eq_default _ _ (by omega)]
    rfl

theorem data_of_lt (hn : n < f.valid.length) : (f.input n).macRxData = f.byteAt n := by
  have hlt : n < f.cycles.length := by
    rw [cycles, List.length_append]
    omega
  rw [input_eq hlt, byteAt, bytes, List.getD_eq_getElem _ _ (by rwa [List.length_map]),
    List.getElem_map]
  simp only [cycles, List.getElem_append_left hn]

theorem byte_23_ne : f.byteAt 23 ≠ 0x01#8 := by
  have hlong := f.long
  have hbyte : f.byteAt 23 = f.valid[23].macRxData := by
    rw [byteAt, bytes, List.getD_eq_getElem _ _ (by rw [List.length_map]; omega), List.getElem_map]
  rw [hbyte]
  exact f.notIcmp

/-! ## The bytes that are checked -/

/-- A byte of the headers, counted from the first byte of the frame, is not as it should be. -/
def headerWrong (p : LocalParams) (k : Nat) (macData : BitVec 8) : Bool :=
  if k < 14 then
    hdr0MacWrong p (BitVec.ofNat 6 k) macData || hdr0TypeWrong (BitVec.ofNat 6 k) macData
  else if k < 34 then hdr1Wrong p (BitVec.ofNat 6 (k - 14)) macData
  else hdr2Wrong p (BitVec.ofNat 6 (k - 34)) macData

/-- The last byte of a header in front of another one. -/
def lastOfHeader (k : Nat) : Bool := k == 13 || k == 33

/-- The bytes of the headers that are checked are right. -/
def checked (p : LocalParams) (f : RxFrame) (n : Nat) : Bool :=
  (List.range n).all fun k => lastOfHeader k || !headerWrong p k (f.byteAt k)

/-- A frame for the application, apart from the low bytes of the Ethertype and of the IP address. -/
def Passes (p : LocalParams) (f : RxFrame) : Prop :=
  MacMatches p f.bytes ∧ f.byteAt 12 = 0x08#8 ∧ f.byteAt 14 = 0x45#8 ∧ f.byteAt 23 = 0x11#8 ∧
    (∀ k < 3, f.byteAt (30 + k) = byte p.localIp (3 - k)) ∧
    f.byteAt 36 = byte p.localPort 1 ∧ f.byteAt 37 = byte p.localPort 0

/-- The low bytes of the Ethertype and of the IP address. -/
def LowBytesMatch (p : LocalParams) (f : RxFrame) : Prop :=
  f.byteAt 13 = 0x00#8 ∧ f.byteAt 33 = byte p.localIp 0

instance (p : LocalParams) (f : RxFrame) : Decidable (f.Passes p) :=
  inferInstanceAs (Decidable (_ ∧ _ ∧ _ ∧ _ ∧ (∀ k < 3, _) ∧ _))

instance (p : LocalParams) (f : RxFrame) : Decidable (f.LowBytesMatch p) :=
  inferInstanceAs (Decidable (_ ∧ _))

theorem accepted_iff_passes (p : LocalParams) (f : RxFrame) :
    Accepted p f.bytes ↔ f.Passes p ∧ f.LowBytesMatch p := by
  rw [accepted_iff]
  unfold IpMatches Passes LowBytesMatch byteAt
  rw [Nat.forall_lt_succ_right]
  constructor
  · rintro ⟨hmac, ⟨htype, hlow⟩, ⟨hver, hprot, hip, hip'⟩, hport⟩
    exact ⟨⟨hmac, htype, hver, hprot, hip, hport⟩, hlow, hip'⟩
  · rintro ⟨⟨hmac, htype, hver, hprot, hip, hport⟩, hlow, hip'⟩
    exact ⟨hmac, ⟨htype, hlow⟩, ⟨hver, hprot, hip, hip'⟩, hport⟩

/-- The header bytes that are checked before the data. -/
theorem checked_iff (p : LocalParams) (f : RxFrame) : f.checked p 41 ↔ f.Passes p := by
  have hicmp := f.byte_23_ne
  have hmac : MacMatches p f.bytes
      ↔ ∀ k < 6, byte p.localMac (5 - k) = f.byteAt k ∨ f.byteAt k = 0xff#8 := Iff.rfl
  rw [Passes, hmac]
  simp only [Nat.forall_lt_succ_right, Nat.not_lt_zero, false_imp_iff, implies_true,
    true_and, and_assoc]
  unfold checked headerWrong lastOfHeader hdr0MacWrong hdr0TypeWrong hdr1Wrong hdr2Wrong
  simp [List.range_succ, hicmp]

end RxFrame

namespace GbeRx

open RxFrame (lastOfHeader headerWrong)

variable {p : LocalParams} {s : GbeRx} {f : RxFrame} {n k : Nat}

/-- The registers in a cycle of a frame. -/
def during (p : LocalParams) (s : GbeRx) (f : RxFrame) (n : Nat) : GbeRx :=
  atCycle (edge p) s f.input n

/-- Between two frames, enabled and not blocked. -/
structure Ready (s : GbeRx) : Prop where
  state : s.mac.rxState = .idle
  enableR : s.mac.localEnableR = true
  enableRR : s.mac.localEnableRR = true
  overrun : s.app.rxOverrun = false
  running : s.app.appState = .running
  noPacket : s.app.packetDvld = false
  noFirst : s.app.packetFirst = false

/-- The application is never blocked and the core is enabled. -/
theorem Ready.running_during (h : Ready s) : ∀ n,
    (s.during p f n).app.rxOverrun = false ∧ (s.during p f n).app.appState = .running ∧
      (s.during p f n).mac.localEnableR = true ∧ (s.during p f n).mac.localEnableRR = true
  | 0 => ⟨h.overrun, h.running, h.enableR, h.enableRR⟩
  | n + 1 => by
    obtain ⟨hover, hrun, hR, -⟩ := h.running_during n
    have henable := f.input_of (P := fun i => i.localEnable = true) f.enabled rfl n
    obtain ⟨hpacket, hctrl⟩ := f.input_of
      (P := fun i => i.packetFifoOverflow = false ∧ i.ctrlFifoOverflow = false)
      f.noOverflow ⟨rfl, rfl⟩ n
    refine ⟨?_, ?_, henable, hR⟩
    · show ((s.during p f n).app.nextOverrun (f.input n)).1 = false
      unfold RxApp.nextOverrun
      rw [hpacket, hctrl, hover]
      split <;> rfl
    · show (s.during p f n).app.nextAppState (s.during p f n).mac = .running
      rw [RxApp.nextAppState, hrun, hover]
      rfl

/-! ## The headers, cycle by cycle -/

/-- Different counts that fit the register. -/
theorem progress_ne {k c : Nat} (hk : k < 64) (hc : c < 64) (hne : k ≠ c) :
    (BitVec.ofNat 6 k == BitVec.ofNat 6 c) = false := by
  rw [beq_eq_false_iff_ne]
  intro heq
  have htoNat := congrArg BitVec.toNat heq
  rw [BitVec.toNat_ofNat, BitVec.toNat_ofNat] at htoNat
  omega

theorem Ready.hdr0_during (h : Ready s) : ∀ k, k < 14 →
    (s.during p f (k + 1)).mac.rxState = .hdr0 ∧
      (s.during p f (k + 1)).mac.hdrProgress = BitVec.ofNat 6 k
  | 0, _ => by
    have hlong := f.long
    have hd := f.dvld_of_lt (n := 0) (by omega)
    constructor
    · show s.mac.nextRxState (f.input 0) = .hdr0
      rw [RxMac.nextRxState, h.state, hd]
      rfl
    · show s.mac.nextHdrProgress (f.input 0) = 0
      rw [RxMac.nextHdrProgress, h.state, hd]
      rfl
  | k + 1, hk => by
    obtain ⟨hstate, hprog⟩ := h.hdr0_during k (by omega)
    have hne : ((s.during p f (k + 1)).mac.hdrProgress == 14 - 1) = false := by
      rw [hprog]
      exact progress_ne (c := 13) (by omega) (by omega) (by omega)
    constructor
    · show (s.during p f (k + 1)).mac.nextRxState _ = .hdr0
      rw [RxMac.nextRxState, hstate, hne]
      rfl
    · show (s.during p f (k + 1)).mac.nextHdrProgress _ = _
      rw [RxMac.nextHdrProgress, hstate, hne, hprog, BitVec.ofNat_add]
      rfl

theorem Ready.hdr1_during (h : Ready s) : ∀ k, k < 20 →
    (s.during p f (k + 15)).mac.rxState = .hdr1 ∧
      (s.during p f (k + 15)).mac.hdrProgress = BitVec.ofNat 6 k ∧
      (s.during p f (k + 15)).mac.icmpUnsearchable = false
  | 0, _ => by
    obtain ⟨hstate, hprog⟩ := h.hdr0_during (p := p) (f := f) 13 (by omega)
    refine ⟨?_, ?_, ?_⟩
    · show (s.during p f (13 + 1)).mac.nextRxState _ = .hdr1
      rw [RxMac.nextRxState, hstate, hprog]
      rfl
    · show (s.during p f (13 + 1)).mac.nextHdrProgress _ = _
      rw [RxMac.nextHdrProgress, hstate, hprog]
      rfl
    · show (s.during p f (13 + 1)).mac.nextIcmp = _
      rw [RxMac.nextIcmp, hstate]
  | k + 1, hk => by
    obtain ⟨hstate, hprog, hicmp⟩ := h.hdr1_during k (by omega)
    have hends : (s.during p f (k + 15)).mac.hdr1Ends = false := by
      have hne : ((s.during p f (k + 15)).mac.hdrProgress == 20 - 1) = false := by
        rw [hprog]
        exact progress_ne (c := 19) (by omega) (by omega) (by omega)
      rw [RxMac.hdr1Ends, hne, hicmp]
      simp
    refine ⟨?_, ?_, ?_⟩
    · show (s.during p f (k + 15)).mac.nextRxState _ = .hdr1
      rw [RxMac.nextRxState, hstate, hends]
      rfl
    · show (s.during p f (k + 15)).mac.nextHdrProgress _ = _
      rw [RxMac.nextHdrProgress, hstate, hends, hprog, BitVec.ofNat_add]
      rfl
    · show (s.during p f (k + 15)).mac.nextIcmp = _
      rw [RxMac.nextIcmp, hstate, hprog]
      -- the protocol is byte 23
      have hlong := f.long
      have hnot :
          (BitVec.ofNat 6 k == 9 && (s.during p f (k + 15)).mac.macData == 0x01#8) = false := by
        by_cases hnine : k = 9
        · subst hnine
          have hbyte : (s.during p f (9 + 15)).mac.macData = f.byteAt 23 :=
            f.data_of_lt (n := 23) (by omega)
          rw [hbyte, beq_eq_false_iff_ne.mpr f.byte_23_ne, Bool.and_false]
        · have hne : (BitVec.ofNat 6 k == 9) = false :=
            progress_ne (c := 9) (by omega) (by omega) hnine
          rw [hne, Bool.false_and]
      rw [hnot]
      exact hicmp

theorem Ready.hdr2_during (h : Ready s) : ∀ k, k < 8 →
    (s.during p f (k + 35)).mac.rxState = .hdr2 ∧
      (s.during p f (k + 35)).mac.hdrProgress = BitVec.ofNat 6 k
  | 0, _ => by
    obtain ⟨hstate, hprog, hicmp⟩ := h.hdr1_during (p := p) (f := f) 19 (by omega)
    have hends : (s.during p f (19 + 15)).mac.hdr1Ends = true := by
      rw [RxMac.hdr1Ends, hprog, hicmp]
      rfl
    constructor
    · show (s.during p f (19 + 15)).mac.nextRxState _ = .hdr2
      rw [RxMac.nextRxState, hstate, hends]
      rfl
    · show (s.during p f (19 + 15)).mac.nextHdrProgress _ = _
      rw [RxMac.nextHdrProgress, hstate, hends]
      rfl
  | k + 1, hk => by
    obtain ⟨hstate, hprog⟩ := h.hdr2_during k (by omega)
    have hne : ((s.during p f (k + 35)).mac.hdrProgress == 8 - 1) = false := by
      rw [hprog]
      exact progress_ne (c := 7) (by omega) (by omega) (by omega)
    constructor
    · show (s.during p f (k + 35)).mac.nextRxState _ = .hdr2
      rw [RxMac.nextRxState, hstate, hne]
      rfl
    · show (s.during p f (k + 35)).mac.nextHdrProgress _ = _
      rw [RxMac.nextHdrProgress, hstate, hprog, BitVec.ofNat_add]
      rfl

/-- The data lasts until a cycle after the last byte. -/
theorem Ready.data_during (h : Ready s) : ∀ k, k + 43 ≤ f.valid.length →
    (s.during p f (k + 43)).mac.rxState = .data
  | 0, _ => by
    obtain ⟨hstate, hprog⟩ := h.hdr2_during (p := p) (f := f) 7 (by omega)
    show (s.during p f (7 + 35)).mac.nextRxState _ = .data
    rw [RxMac.nextRxState, hstate, hprog]
    rfl
  | k + 1, hk => by
    have hstate := h.data_during k (by omega)
    show (s.during p f (k + 43)).mac.nextRxState (f.input (k + 43)) = .data
    rw [RxMac.nextRxState, hstate, f.dvld_of_lt (by omega)]
    rfl

theorem Ready.idle_during (h : Ready s) (hn : f.valid.length < n) :
    (s.during p f n).mac.rxState = .idle := by
  have hlong := f.long
  induction n, hn using Nat.le_induction with
  | base =>
    have hstate := h.data_during (p := p) (f := f) (f.valid.length - 43) (by omega)
    rw [show f.valid.length - 43 + 43 = f.valid.length by omega] at hstate
    show (s.during p f f.valid.length).mac.nextRxState (f.input f.valid.length) = .idle
    rw [RxMac.nextRxState, hstate, f.dvld_of_le (Nat.le_refl _)]
    rfl
  | succ n hn hstate =>
    show (s.during p f n).mac.nextRxState (f.input n) = .idle
    rw [RxMac.nextRxState, hstate, f.dvld_of_le (by omega)]
    rfl

/-! ## The checks, cycle by cycle -/

/-- A check counts three cycles after its byte, under the state of the cycle behind the byte. -/
theorem appOk_during (p : LocalParams) (s : GbeRx) (f : RxFrame) (n : Nat) :
    (s.during p f (n + 3)).mac.appOk
      = match (s.during p f (n + 1)).mac.rxState with
        | .idle => true
        | .hdr0 => (s.during p f (n + 2)).mac.appOk && ((s.during p f n).mac.localEnableRR &&
            !((s.during p f n).mac.rxState == .hdr0 &&
              (hdr0MacWrong p (s.during p f n).mac.hdrProgress (s.during p f n).mac.macData ||
                hdr0TypeWrong (s.during p f n).mac.hdrProgress (s.during p f n).mac.macData)))
        | .hdr1 => (s.during p f (n + 2)).mac.appOk && ((s.during p f n).mac.localEnableRR &&
            !((s.during p f n).mac.rxState == .hdr1 &&
              hdr1Wrong p (s.during p f n).mac.hdrProgress (s.during p f n).mac.macData))
        | .hdr2 => (s.during p f (n + 2)).mac.appOk && ((s.during p f n).mac.localEnableRR &&
            !((s.during p f n).mac.rxState == .hdr2 &&
              hdr2Wrong p (s.during p f n).mac.hdrProgress (s.during p f n).mac.macData))
        | .data => (s.during p f (n + 2)).mac.appOk := rfl

/-- The checks of the bytes of the headers, without the last byte of a header. -/
theorem Ready.appOk_succ (h : Ready s) {k : Nat} (hk : k < 41) :
    (s.during p f (k + 4)).mac.appOk
      = ((s.during p f (k + 3)).mac.appOk &&
          (lastOfHeader k || !headerWrong p k (f.byteAt k))) := by
  have hlong := f.long
  obtain ⟨-, -, -, henable⟩ := h.running_during (p := p) (f := f) (k + 1)
  have hdata : (s.during p f (k + 1)).mac.macData = f.byteAt k := f.data_of_lt (by omega)
  rw [appOk_during p s f (k + 1), henable, hdata]
  by_cases h0 : k < 14
  · obtain ⟨hstate, hprog⟩ := h.hdr0_during (p := p) (f := f) k h0
    by_cases hlast : k = 13
    · subst hlast
      obtain ⟨hnow, -⟩ := h.hdr1_during (p := p) (f := f) 0 (by omega)
      rw [show (s.during p f (13 + 1 + 1)).mac.rxState = .hdr1 from hnow, hstate]
      rfl
    · obtain ⟨hnow, -⟩ := h.hdr0_during (p := p) (f := f) (k + 1) (by omega)
      have hnot : lastOfHeader k = false := by
        simp [lastOfHeader]
        omega
      rw [hnow, hstate, hprog, hnot, headerWrong, if_pos h0]
      rfl
  · by_cases h1 : k < 34
    · obtain ⟨j, rfl⟩ := Nat.exists_eq_add_of_le' (show 14 ≤ k by omega)
      obtain ⟨hstate, hprog, -⟩ := h.hdr1_during (p := p) (f := f) j (by omega)
      by_cases hlast : j = 19
      · subst hlast
        obtain ⟨hnow, -⟩ := h.hdr2_during (p := p) (f := f) 0 (by omega)
        rw [show (s.during p f (19 + 14 + 1 + 1)).mac.rxState = .hdr2 from hnow,
          show (s.during p f (19 + 14 + 1)).mac.rxState = .hdr1 from hstate]
        rfl
      · obtain ⟨hnow, -⟩ := h.hdr1_during (p := p) (f := f) (j + 1) (by omega)
        have hnot : lastOfHeader (j + 14) = false := by
          simp [lastOfHeader]
          omega
        rw [show (s.during p f (j + 14 + 1 + 1)).mac.rxState = .hdr1 from hnow,
          show (s.during p f (j + 14 + 1)).mac.rxState = .hdr1 from hstate,
          show (s.during p f (j + 14 + 1)).mac.hdrProgress = _ from hprog, hnot, headerWrong,
          if_neg h0, if_pos h1, Nat.add_sub_cancel]
        rfl
    · obtain ⟨j, rfl⟩ := Nat.exists_eq_add_of_le' (show 34 ≤ k by omega)
      obtain ⟨hstate, hprog⟩ := h.hdr2_during (p := p) (f := f) j (by omega)
      obtain ⟨hnow, -⟩ := h.hdr2_during (p := p) (f := f) (j + 1) (by omega)
      have hnot : lastOfHeader (j + 34) = false := by
        simp [lastOfHeader]
      rw [show (s.during p f (j + 34 + 1 + 1)).mac.rxState = .hdr2 from hnow,
        show (s.during p f (j + 34 + 1)).mac.rxState = .hdr2 from hstate,
        show (s.during p f (j + 34 + 1)).mac.hdrProgress = _ from hprog, hnot, headerWrong,
        if_neg h0, if_neg h1, Nat.add_sub_cancel]
      rfl

/-- When the data comes, all the bytes that are checked have counted. -/
theorem Ready.appOk_headers (h : Ready s) : ∀ k, k ≤ 41 →
    (s.during p f (k + 3)).mac.appOk = f.checked p k
  | 0, _ => by
    obtain ⟨hstate, -⟩ := h.hdr0_during (p := p) (f := f) 0 (by omega)
    obtain ⟨-, -, -, henable⟩ := h.running_during (p := p) (f := f) 0
    have hreset : (s.during p f 2).mac.appOk = true := by
      show (s.during p f 1).mac.nextAppOk = true
      rw [RxMac.nextAppOk, show (s.during p f 1).mac.rxStateR = .idle from h.state]
    rw [appOk_during p s f 0, hstate, hreset, henable,
      show (s.during p f 0).mac.rxState = .idle from h.state]
    rfl
  | k + 1, hk => by
    rw [h.appOk_succ (by omega), h.appOk_headers k (by omega), RxFrame.checked, RxFrame.checked,
      List.range_succ, List.all_append]
    simp

/-- While data is written, the result of the checks stays. -/
theorem Ready.appOk_data (h : Ready s) : ∀ k, k + 42 ≤ f.valid.length →
    (s.during p f (k + 44)).mac.appOk = f.checked p 41
  | 0, _ => h.appOk_headers 41 (Nat.le_refl _)
  | k + 1, hk => by
    rw [appOk_during p s f (k + 42), h.data_during k (by omega)]
    exact h.appOk_data k (by omega)

/-- The data state, in the cycles behind the headers. -/
theorem Ready.data_iff (h : Ready s) :
    (s.during p f n).mac.rxState = .data ↔ 43 ≤ n ∧ n ≤ f.valid.length := by
  by_cases hn : 43 ≤ n ∧ n ≤ f.valid.length
  · obtain ⟨k, rfl⟩ := Nat.exists_eq_add_of_le' hn.1
    exact iff_of_true (h.data_during k hn.2) hn
  · refine iff_of_false (fun hdata => ?_) hn
    have hne : ∀ {state : RxState}, (s.during p f n).mac.rxState = state → state = .data :=
      fun hstate => hstate.symm.trans hdata
    by_cases hlast : f.valid.length < n
    · cases hne (h.idle_during hlast)
    by_cases h2 : 35 ≤ n
    · obtain ⟨k, rfl⟩ := Nat.exists_eq_add_of_le' h2
      cases hne (h.hdr2_during k (by omega)).1
    by_cases h1 : 15 ≤ n
    · obtain ⟨k, rfl⟩ := Nat.exists_eq_add_of_le' h1
      cases hne (h.hdr1_during k (by omega)).1
    by_cases h0 : 1 ≤ n
    · obtain ⟨k, rfl⟩ := Nat.exists_eq_add_of_le' h0
      cases hne (h.hdr0_during k (by omega)).1
    · obtain rfl : n = 0 := by omega
      cases hne h.state

/-! ## The source -/

/-- The source address is shifted in byte by byte. -/
theorem Ready.srcAddr_read (h : Ready s) : (s.during p f 31).mac.srcAddr = f.source.2 := by
  have hlong := f.long
  have hdata : ∀ k, k < 20 → (s.during p f (k + 15)).mac.macData = f.byteAt (k + 14) :=
    fun k hk => f.data_of_lt (n := k + 14) (by omega)
  have h₁ : byte (s.during p f 28).mac.srcAddr 3 = f.byteAt 26 := by
    obtain ⟨hstate, hprog, -⟩ := h.hdr1_during (p := p) (f := f) 12 (by omega)
    show byte (s.during p f (12 + 15)).mac.nextSrcAddr 3 = _
    rw [RxMac.nextSrcAddr, hstate, hprog, hdata 12 (by omega)]
    exact BitVec.extractLsb'_append_eq_left
  have h₂ : (s.during p f 29).mac.srcAddr.extractLsb' 16 16 = f.byteAt 26 ++ f.byteAt 27 := by
    obtain ⟨hstate, hprog, -⟩ := h.hdr1_during (p := p) (f := f) 13 (by omega)
    show (s.during p f (13 + 15)).mac.nextSrcAddr.extractLsb' 16 16 = _
    rw [RxMac.nextSrcAddr, hstate, hprog, hdata 13 (by omega), ← h₁]
    exact BitVec.extractLsb'_append_eq_left
  have h₃ : (s.during p f 30).mac.srcAddr.extractLsb' 8 24
      = f.byteAt 26 ++ f.byteAt 27 ++ f.byteAt 28 := by
    obtain ⟨hstate, hprog, -⟩ := h.hdr1_during (p := p) (f := f) 14 (by omega)
    show (s.during p f (14 + 15)).mac.nextSrcAddr.extractLsb' 8 24 = _
    rw [RxMac.nextSrcAddr, hstate, hprog, hdata 14 (by omega), ← h₂]
    exact BitVec.extractLsb'_append_eq_left
  obtain ⟨hstate, hprog, -⟩ := h.hdr1_during (p := p) (f := f) 15 (by omega)
  show (s.during p f (15 + 15)).mac.nextSrcAddr = _
  rw [RxMac.nextSrcAddr, hstate, hprog, hdata 15 (by omega), RxFrame.source, ← h₃]
  rfl

/-- The source port, likewise. -/
theorem Ready.srcPort_read (h : Ready s) : (s.during p f 37).mac.srcPort = f.source.1 := by
  have hlong := f.long
  have hdata : ∀ k, k < 8 → (s.during p f (k + 35)).mac.macData = f.byteAt (k + 34) :=
    fun k hk => f.data_of_lt (n := k + 34) (by omega)
  have h₁ : byte (s.during p f 36).mac.srcPort 1 = f.byteAt 34 := by
    obtain ⟨hstate, hprog⟩ := h.hdr2_during (p := p) (f := f) 0 (by omega)
    show byte (s.during p f (0 + 35)).mac.nextSrcPort 1 = _
    rw [RxMac.nextSrcPort, hstate, hprog, hdata 0 (by omega)]
    exact BitVec.extractLsb'_append_eq_left
  obtain ⟨hstate, hprog⟩ := h.hdr2_during (p := p) (f := f) 1 (by omega)
  show (s.during p f (1 + 35)).mac.nextSrcPort = _
  rw [RxMac.nextSrcPort, hstate, hprog, hdata 1 (by omega), RxFrame.source, ← h₁]
  rfl

/-- What has been read of the source stays while the data is written. -/
theorem Ready.source_keeps (h : Ready s) (hlow : 31 ≤ n) (hle : n ≤ f.valid.length) :
    (s.during p f (n + 1)).mac.srcAddr = (s.during p f n).mac.srcAddr ∧
      (37 ≤ n → (s.during p f (n + 1)).mac.srcPort = (s.during p f n).mac.srcPort) := by
  show (s.during p f n).mac.nextSrcAddr = _ ∧ (_ → (s.during p f n).mac.nextSrcPort = _)
  unfold RxMac.nextSrcAddr RxMac.nextSrcPort
  by_cases hdata : 43 ≤ n
  · rw [h.data_iff.mpr ⟨hdata, hle⟩]
    exact ⟨rfl, fun _ => rfl⟩
  by_cases h2 : 35 ≤ n
  · obtain ⟨k, rfl⟩ := Nat.exists_eq_add_of_le' h2
    obtain ⟨hstate, hprog⟩ := h.hdr2_during (p := p) (f := f) k (by omega)
    rw [hstate, hprog, BitVec.toNat_ofNat, Nat.mod_eq_of_lt (by omega)]
    refine ⟨rfl, fun hport => ?_⟩
    obtain ⟨j, rfl⟩ := Nat.exists_eq_add_of_le' (show 2 ≤ k by omega)
    rfl
  · obtain ⟨k, rfl⟩ := Nat.exists_eq_add_of_le' (show 15 ≤ n by omega)
    obtain ⟨hstate, hprog, -⟩ := h.hdr1_during (p := p) (f := f) k (by omega)
    rw [hstate, hprog, BitVec.toNat_ofNat, Nat.mod_eq_of_lt (by omega)]
    refine ⟨?_, fun _ => rfl⟩
    obtain ⟨j, rfl⟩ := Nat.exists_eq_add_of_le' (show 16 ≤ k by omega)
    rfl

theorem Ready.source_during (h : Ready s) :
    (s.during p f 44).mac.srcPort = f.source.1 ∧ (s.during p f 44).mac.srcAddr = f.source.2 := by
  have hlong := f.long
  have haddr : ∀ k, k ≤ 13 → (s.during p f (k + 31)).mac.srcAddr = f.source.2 := by
    intro k
    induction k with
    | zero => exact fun _ => h.srcAddr_read
    | succ k ih =>
      intro hk
      rw [← ih (by omega)]
      exact (h.source_keeps (by omega) (by omega)).1
  have hport : ∀ k, k ≤ 7 → (s.during p f (k + 37)).mac.srcPort = f.source.1 := by
    intro k
    induction k with
    | zero => exact fun _ => h.srcPort_read
    | succ k ih =>
      intro hk
      rw [← ih (by omega)]
      exact (h.source_keeps (by omega) (by omega)).2 (by omega)
  exact ⟨hport 7 (by omega), haddr 13 (by omega)⟩

/-! ## What is written -/

/-- Data is written in the cycles behind the headers. -/
theorem Ready.packetDvld_iff (h : Ready s) :
    (s.during p f n).app.packetDvld = true ↔ 44 ≤ n ∧ n ≤ f.valid.length + 1 := by
  cases n with
  | zero =>
    rw [show (s.during p f 0).app.packetDvld = false from h.noPacket]
    simp
  | succ n =>
    have hdata := h.data_iff (p := p) (f := f) (n := n)
    show ((s.during p f n).mac.rxState == .data) = true ↔ _
    rw [beq_iff_eq, hdata]
    omega

/-- The first byte of the data. -/
theorem Ready.packetFirst_iff (h : Ready s) :
    (s.during p f n).app.packetFirst = true ↔ n = 44 := by
  match n with
  | 0 =>
    rw [show (s.during p f 0).app.packetFirst = false from h.noFirst]
    simp
  | 1 =>
    rw [show (s.during p f 1).app.packetFirst = (s.mac.rxState == .data && _) from rfl, h.state]
    simp
  | n + 2 =>
    have hlong := f.long
    have hbefore := h.data_iff (p := p) (f := f) (n := n)
    have hdata := h.data_iff (p := p) (f := f) (n := n + 1)
    show ((s.during p f (n + 1)).mac.rxState == .data &&
      (s.during p f n).mac.rxState != .data) = true ↔ _
    rw [Bool.and_eq_true, beq_iff_eq, bne_iff_ne, ne_eq, hbefore, hdata]
    omega

/-- The byte in the packet FIFO. -/
theorem Ready.packetFifoWr_data (h : Ready s) (hk : k + 42 < f.valid.length) :
    (s.during p f (44 + k)).packetFifoWr
      = if f.checked p 41 then [(k + 43 == f.valid.length, f.byteAt (k + 42))] else [] := by
  obtain ⟨-, hrun, -⟩ := h.running_during (p := p) (f := f) (44 + k)
  have hdvld := (h.packetDvld_iff (p := p) (f := f) (n := 44 + k)).mpr (by omega)
  have hok := h.appOk_data (p := p) (f := f) k (by omega)
  rw [Nat.add_comm] at hok
  have hbyte : (s.during p f (44 + k)).mac.macDataAligned = f.byteAt (k + 42) := by
    rw [Nat.add_comm]
    exact f.data_of_lt hk
  have heof : (s.during p f (44 + k)).mac.packetEof = (k + 43 == f.valid.length) := by
    rw [Nat.add_comm]
    show ((f.input (k + 42)).macRxDvld && !(f.input (k + 43)).macRxDvld) = _
    rw [f.dvld_of_lt hk, Bool.true_and]
    by_cases hlast : k + 43 < f.valid.length
    · rw [f.dvld_of_lt hlast]
      exact (beq_eq_false_iff_ne.mpr (by omega)).symm
    · rw [f.dvld_of_le (by omega)]
      exact (beq_iff_eq.mpr (by omega)).symm
  rw [packetFifoWr, hdvld, hrun, hok, hbyte, heof]
  simp only [beq_self_eq_true, Bool.true_and]

/-- What the frames of a run put into the packet FIFO. -/
def packetFifo (p : LocalParams) (s : GbeRx) (is : List GbeRxIn) : List (Bool × BitVec 8) :=
  outputs (edge p) (fun s _ => s.packetFifoWr) s is

/-- What the frames of a run put into the control FIFO. -/
def ctrlFifo (p : LocalParams) (s : GbeRx) (is : List GbeRxIn) : List (BitVec 16 × BitVec 32) :=
  outputs (edge p) (fun s _ => s.ctrlFifoWr) s is

theorem Ready.packetFifo_frame (h : Ready s) :
    packetFifo p s f.cycles = if f.checked p 41 then RxFrame.marked f.payload else [] := by
  have hlong := f.long
  have hgap := f.gap
  have hlen : f.cycles.length = f.valid.length + f.idle.length := List.length_append
  have hnone : ∀ n, ¬(44 ≤ n ∧ n ≤ f.valid.length + 1) → (s.during p f n).packetFifoWr = [] := by
    intro n hn
    rw [packetFifoWr, Bool.eq_false_iff.mpr (fun hdvld => hn (h.packetDvld_iff.mp hdvld))]
    rfl
  have hout : packetFifo p s f.cycles
      = (List.range f.cycles.length).flatMap fun n => (s.during p f n).packetFifoWr :=
    outputs_eq _ _ f.cycles s f.input fun n hn => RxFrame.input_eq hn
  rw [hout, flatMap_range_window (a := 44) (m := f.valid.length - 42) (by omega)
    (fun n hn => hnone n (by omega)) (fun n hn _ => hnone n (by omega)),
    List.flatMap_congr fun k hk => h.packetFifoWr_data (p := p) (f := f)
      (by have := List.mem_range.mp hk; omega)]
  by_cases hok : f.checked p 41 = true
  · simp only [hok, if_true]
    have hsize : f.payload.length = f.valid.length - 42 := by
      rw [RxFrame.payload, RxFrame.bytes, List.length_drop, List.length_map]
    rw [RxFrame.marked_eq, hsize, List.map_eq_flatMap]
    refine List.flatMap_congr fun k hk => ?_
    have hlt := List.mem_range.mp hk
    have hbyte : f.payload.getD k 0 = f.byteAt (k + 42) := by
      rw [RxFrame.payload, RxFrame.byteAt, List.getD_eq_getElem?_getD, List.getElem?_drop,
        List.getD_eq_getElem?_getD, Nat.add_comm]
    have hlast : (k + 43 == f.valid.length) = (k + 1 == f.valid.length - 42) := by
      rw [Bool.eq_iff_iff, beq_iff_eq, beq_iff_eq]
      omega
    rw [hbyte, hlast]
  · simp [hok]

theorem Ready.ctrlFifo_frame (h : Ready s) :
    ctrlFifo p s f.cycles = if f.checked p 41 then [f.source] else [] := by
  have hlong := f.long
  have hgap := f.gap
  have hlen : f.cycles.length = f.valid.length + f.idle.length := List.length_append
  have hnone : ∀ n, n ≠ 44 → (s.during p f n).ctrlFifoWr = [] := by
    intro n hn
    rw [ctrlFifoWr, Bool.eq_false_iff.mpr (fun hfirst => hn (h.packetFirst_iff.mp hfirst)),
      Bool.and_false]
    rfl
  have hout : ctrlFifo p s f.cycles
      = (List.range f.cycles.length).flatMap fun n => (s.during p f n).ctrlFifoWr :=
    outputs_eq _ _ f.cycles s f.input fun n hn => RxFrame.input_eq hn
  obtain ⟨-, hrun, -⟩ := h.running_during (p := p) (f := f) 44
  obtain ⟨hport, haddr⟩ := h.source_during (p := p) (f := f)
  have hok := h.appOk_data (p := p) (f := f) 0 (by omega)
  rw [hout, flatMap_range_window (a := 44) (m := 1) (by omega) (fun n hn => hnone n (by omega))
    (fun n hn _ => hnone n (by omega))]
  show (s.during p f 44).ctrlFifoWr ++ [] = _
  rw [ctrlFifoWr, hrun, h.packetFirst_iff.mpr rfl, hok, hport, haddr, List.append_nil]
  simp only [beq_self_eq_true, Bool.true_and]

/-- Behind a frame the receiver is ready for the next one. -/
theorem Ready.frame (h : Ready s) : Ready (f.cycles.foldl (edge p) s) := by
  have hlong := f.long
  have hgap := f.gap
  have hlen : f.cycles.length = f.valid.length + f.idle.length := List.length_append
  have hend : f.cycles.foldl (edge p) s = s.during p f f.cycles.length := by
    rw [during, ← foldl_eq_atCycle (edge p) f.cycles s f.input
      (fun n hn => RxFrame.input_eq hn) _ (Nat.le_refl _), List.take_length]
  obtain ⟨hover, hrun, hR, hRR⟩ := h.running_during (p := p) (f := f) f.cycles.length
  rw [hend]
  refine ⟨h.idle_during (by omega), hR, hRR, hover, hrun, ?_, ?_⟩
  · rw [Bool.eq_false_iff, ne_eq, h.packetDvld_iff]
    omega
  · rw [Bool.eq_false_iff, ne_eq, h.packetFirst_iff]
    omega

/-! ## Runs -/

/-- The inputs of a run in which the MAC delivers some frames. -/
def inputs (fs : List RxFrame) : List GbeRxIn := fs.flatMap RxFrame.cycles

/-- What a run writes: the data and the sources of the frames that pass the checks. -/
theorem Ready.written : ∀ (fs : List RxFrame) (s : GbeRx), Ready s →
    packetFifo p s (inputs fs)
        = fs.flatMap (fun f => if f.checked p 41 then RxFrame.marked f.payload else []) ∧
      ctrlFifo p s (inputs fs) = fs.flatMap (fun f => if f.checked p 41 then [f.source] else [])
  | [], _, _ => ⟨rfl, rfl⟩
  | f :: fs, s, h => by
    obtain ⟨ihpacket, ihctrl⟩ := written fs (f.cycles.foldl (edge p) s) h.frame
    have hsplit : inputs (f :: fs) = f.cycles ++ inputs fs := rfl
    constructor
    · rw [hsplit, packetFifo, outputs_append, List.flatMap_cons, ← h.packetFifo_frame, ← ihpacket]
      rfl
    · rw [hsplit, ctrlFifo, outputs_append, List.flatMap_cons, ← h.ctrlFifo_frame, ← ihctrl]
      rfl

/-- Lists that get one item for each choice, where one chooses no more than the other. -/
theorem chosen_of_length_eq {α β : Type} {A C : α → Prop} [DecidablePred A] [DecidablePred C]
    (g : α → β) (hsub : ∀ a, A a → C a) : ∀ l : List α,
    (l.flatMap fun a => if A a then [g a] else []).length
        ≤ (l.flatMap fun a => if C a then [g a] else []).length ∧
      ((l.flatMap fun a => if C a then [g a] else []).length
          = (l.flatMap fun a => if A a then [g a] else []).length → ∀ a ∈ l, C a → A a)
  | [] => ⟨Nat.le_refl _, fun _ _ ha => absurd ha List.not_mem_nil⟩
  | a :: l => by
    obtain ⟨ihle, iheq⟩ := chosen_of_length_eq g hsub l
    rw [List.flatMap_cons, List.flatMap_cons, List.length_append, List.length_append]
    by_cases hA : A a
    · rw [if_pos hA, if_pos (hsub a hA)]
      refine ⟨by omega, fun heq b hb hC => ?_⟩
      rcases List.mem_cons.mp hb with rfl | hb
      · exact hA
      · exact iheq (by omega) b hb hC
    · rw [if_neg hA]
      by_cases hC : C a
      · rw [if_pos hC]
        simp only [List.length_nil, List.length_singleton]
        exact ⟨by omega, fun heq => absurd heq (by omega)⟩
      · rw [if_neg hC]
        refine ⟨by omega, fun heq b hb hCb => ?_⟩
        rcases List.mem_cons.mp hb with rfl | hb
        · exact absurd hCb hC
        · exact iheq (by omega) b hb hCb

/--
**The frames for the application are written, and nothing else**, exactly when no frame of the run
differs from one for the application in the low byte of the Ethertype or of the IP address alone.
-/
theorem Ready.written_iff (h : Ready s) (fs : List RxFrame) :
    packetFifo p s (inputs fs) = fs.flatMap (RxFrame.packetData p) ∧
        ctrlFifo p s (inputs fs) = fs.flatMap (RxFrame.ctrlData p)
      ↔ ∀ f ∈ fs, f.Passes p → f.LowBytesMatch p := by
  obtain ⟨hpacket, hctrl⟩ := h.written (p := p) fs s
  simp only [RxFrame.checked_iff] at hpacket hctrl
  rw [hpacket, hctrl]
  constructor
  · rintro ⟨-, heq⟩ f hf hpass
    have hsub : ∀ f : RxFrame, Accepted p f.bytes → f.Passes p :=
      fun f hf => ((f.accepted_iff_passes p).mp hf).1
    have haccepted := (chosen_of_length_eq RxFrame.source hsub fs).2 (congrArg List.length heq) f hf
      hpass
    exact ((f.accepted_iff_passes p).mp haccepted).2
  · intro hlow
    have hiff : ∀ f ∈ fs, (f.Passes p ↔ Accepted p f.bytes) := by
      intro f hf
      rw [f.accepted_iff_passes p]
      exact ⟨fun hpass => ⟨hpass, hlow f hf hpass⟩, fun hacc => hacc.1⟩
    constructor
    · refine List.flatMap_congr fun f hf => ?_
      simp only [hiff f hf]
      rfl
    · refine List.flatMap_congr fun f hf => ?_
      simp only [hiff f hf]
      rfl

/-- A receiver at rest, enabled and not blocked. -/
def resting : GbeRx where
  mac := ⟨.idle, 0, false, 0, false, false, false, 0, false, 0, 0, true, true, true, true, true,
    true, true, true, true, true, true, true, true, true, .idle, true, true⟩
  app := ⟨false, false, false, false, .running, false, false⟩
  cpu := ⟨.idle, false, false, 0, 0, false⟩

theorem resting_ready : Ready resting := ⟨rfl, rfl, rfl, rfl, rfl, rfl, rfl⟩

/-- The address of a station. -/
def station : LocalParams := ⟨0x020203040506, 0x0a000005, 10000, false, false⟩

end GbeRx

/-- The bytes of a frame, with the shortest gap behind them. -/
def RxFrame.ofBytes (bs : List (BitVec 8)) (long : 43 ≤ bs.length) (notIcmp : bs[23] ≠ 0x01#8) :
    RxFrame where
  valid := bs.map fun b => { GbeRxIn.quiet with macRxData := b, macRxDvld := true }
  idle := List.replicate 12 .quiet
  dvld i hi := by
    obtain ⟨b, -, rfl⟩ := List.mem_map.mp hi
    rfl
  quiet i hi := by
    rw [List.eq_of_mem_replicate hi]
    rfl
  long := by rwa [List.length_map]
  gap := Nat.le_of_eq List.length_replicate.symm
  enabled i hi := by
    rcases List.mem_append.mp hi with hi | hi
    · obtain ⟨b, -, rfl⟩ := List.mem_map.mp hi
      rfl
    · rw [List.eq_of_mem_replicate hi]
      rfl
  noOverflow i hi := by
    rcases List.mem_append.mp hi with hi | hi
    · obtain ⟨b, -, rfl⟩ := List.mem_map.mp hi
      exact ⟨rfl, rfl⟩
    · rw [List.eq_of_mem_replicate hi]
      exact ⟨rfl, rfl⟩
  notIcmp := by rwa [List.getElem_map]

/-- A frame to the station at `10.0.0.last`, with one byte of data. -/
def RxFrame.toStation (last : BitVec 8) : RxFrame :=
  .ofBytes
    ([0x02, 0x02, 0x03, 0x04, 0x05, 0x06, 0x02, 0x02, 0x0a, 0x0b, 0x0c, 0x0d, 0x08, 0x00] ++
      [0x45, 0x00, 0x00, 0x1d, 0x00, 0x00, 0x40, 0x00, 0x80, 0x11, 0x00, 0x00, 0x0a, 0x00, 0x00,
        0x07, 0x0a, 0x00, 0x00, last] ++
      [0x1f, 0x90, 0x27, 0x10, 0x00, 0x09, 0x00, 0x00] ++ [0x58])
    (Nat.le_of_eq rfl) (show 0x11#8 ≠ 0x01#8 by decide)

namespace GbeRx

theorem written_iff_toStation :
    packetFifo station resting (inputs [.toStation 5, .toStation 5])
        = [.toStation 5, .toStation 5].flatMap (RxFrame.packetData station) ∧
      ctrlFifo station resting (inputs [.toStation 5, .toStation 5])
        = [.toStation 5, .toStation 5].flatMap (RxFrame.ctrlData station) :=
  (Ready.written_iff resting_ready _).mpr (by decide)

/-- The data of a frame for the next station is written. -/
theorem toStation_6_written :
    ¬(packetFifo station resting (inputs [.toStation 6])
        = [RxFrame.toStation 6].flatMap (RxFrame.packetData station) ∧
      ctrlFifo station resting (inputs [.toStation 6])
        = [RxFrame.toStation 6].flatMap (RxFrame.ctrlData station)) := by
  rintro ⟨hpacket, -⟩
  have hpass : (RxFrame.toStation 6).checked station 41 = true := by decide
  have hreject : ¬Accepted station (RxFrame.toStation 6).bytes := by decide
  rw [(Ready.written _ _ resting_ready).1, List.flatMap_singleton, List.flatMap_singleton,
    if_pos hpass, RxFrame.packetData, if_neg hreject] at hpacket
  exact absurd hpacket (by decide)

end GbeRx

end MlibDevel.Onegbe
