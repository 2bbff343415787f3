import MlibDevel.Onegbe.GbeTx
import Mathlib.Data.List.GetD

/-!
# The headers of a frame that is sent (`gbe_tx.v`)

A few cycles after its entry has come to the front of the control FIFO, the lengths, the checksum
and the destination of a frame are there, and the multiplexers have its headers.  From the first
byte on the state machine then counts through them, one byte ahead of the output (`InHeader.step`).
-/

namespace MlibDevel.Onegbe

open Lib
open TenGbe (foldCarries invertSum)

namespace GbeTx

variable {p : GbeTxParams} {s : GbeTx} {ctrlFifo : List TxCtrl} {c : TxCtrl} {i : GbeTxIn}

/--
What is computed of the entry `c` at the front of the control FIFO, `n` cycles after it has been
there for a cycle.
-/
structure Settling (p : GbeTxParams) (c : TxCtrl) (n : Nat) (s : GbeTx) : Prop where
  ipLength : s.ipLength = c.ipLength
  udpLength : s.udpLength = c.udpLength
  arp : s.arpCacheRdData = p.destMac c.ip
  sum0 : 1 ≤ n → s.ipChecksum0 = p.headerSum c
  sum1 : 2 ≤ n → s.ipChecksum1 = foldCarries (p.headerSum c)
  sum : 3 ≤ n → s.ipChecksum = p.ipChecksum c

/-- In the first cycle the lengths are computed and the cache is read. -/
theorem settling_zero (hctrl : ctrlFifo.headD ⟨0, 0, 0⟩ = c) :
    Settling p c 0 (s.edge p ctrlFifo i) := by
  unfold edge
  rw [hctrl]
  refine ⟨rfl, rfl, p.arpCache_addr c.ip, ?_, ?_, ?_⟩
  all_goals exact fun h => absurd h (by omega)

/-- Then the sum goes through the stages of the pipeline. -/
theorem Settling.step {n : Nat} (h : Settling p c n s) (hctrl : ctrlFifo.headD ⟨0, 0, 0⟩ = c) :
    Settling p c (n + 1) (s.edge p ctrlFifo i) := by
  unfold edge
  rw [hctrl]
  refine ⟨rfl, rfl, p.arpCache_addr c.ip, fun _ => ?_, fun hn => ?_, fun hn => ?_⟩
  · show p.ipChecksumFixed.setWidth 18 + s.ipLength.setWidth 18 + _ + _ = _
    rw [h.ipLength]
    rfl
  · show foldCarries s.ipChecksum0 = _
    rw [h.sum0 (by omega)]
  · show invertSum s.ipChecksum1 = _
    rw [h.sum1 (by omega)]
    rfl

theorem Settling.mono {m n : Nat} (h : Settling p c n s) (hle : m ≤ n) : Settling p c m s :=
  ⟨h.ipLength, h.udpLength, h.arp, fun hm => h.sum0 (by omega), fun hm => h.sum1 (by omega),
    fun hm => h.sum (by omega)⟩

/-- The three multiplexers have the bytes of the headers. -/
theorem Settling.headers (h : Settling p c 3 s) :
    s.hdr0 p = p.ethernetHeader c ∧ s.hdr1 p c = p.ipHeader c ∧ s.hdr2 p c = p.udpHeader c := by
  unfold hdr0 hdr1 hdr2
  rw [h.arp, h.ipLength, h.sum (Nat.le_refl _), h.udpLength]
  exact ⟨rfl, rfl, rfl⟩

/-! ## The headers, byte by byte -/

/-- The state in which byte `k` of the headers is at the output, for `k` up to 41. -/
def hdrState (k : Nat) : TxState :=
  if k < 13 then .appHdr0 else if k < 33 then .appHdr1 else if k < 41 then .appHdr2 else .appData

/-- The progress, which is a byte ahead. -/
def hdrProgress (k : Nat) : Nat := if k < 13 then k + 1 else if k < 33 then k - 13 else k - 33

/-- Byte `k` of the headers is at the output. -/
structure InHeader (p : GbeTxParams) (c : TxCtrl) (k : Nat) (s : GbeTx) : Prop where
  state : s.txState = hdrState k
  progress : k < 41 → s.progress = BitVec.ofNat 6 (hdrProgress k)
  acked : k < 13 → s.txAcked = true
  last : s.hdrLast = (k == 41)
  count : s.txCount = c.size
  settling : Settling p c 3 s
  data : ∀ d i, i.macTxAck = false → s.macTxData d i = (p.frameHeader c).getD k 0

theorem getD_frameHeader (p : GbeTxParams) (c : TxCtrl) :
    (∀ k < 14, (p.frameHeader c).getD k 0 = (p.ethernetHeader c).getD k 0) ∧
      (∀ k < 20, (p.frameHeader c).getD (k + 14) 0 = (p.ipHeader c).getD k 0) ∧
      (∀ k < 8, (p.frameHeader c).getD (k + 34) 0 = (p.udpHeader c).getD k 0) := by
  have hmac : (p.ethernetHeader c).length = 14 := rfl
  have hip : (p.ethernetHeader c ++ p.ipHeader c).length = 34 := rfl
  unfold GbeTxParams.frameHeader
  refine ⟨fun k hk => ?_, fun k hk => ?_, fun k hk => ?_⟩
  · rw [List.getD_append _ _ _ _ (by omega), List.getD_append _ _ _ _ (by omega)]
  · rw [List.getD_append _ _ _ _ (by omega), List.getD_append_right _ _ _ _ (by omega), hmac,
      Nat.add_sub_cancel]
  · rw [List.getD_append_right _ _ _ _ (by omega), hip, Nat.add_sub_cancel]

/-- What the multiplexers select comes to the output in the next cycle. -/
theorem edge_data (hctrl : ctrlFifo.headD ⟨0, 0, 0⟩ = c) (h : Settling p c 3 s) {k : Nat}
    (hk : k < 41) (hstate : s.txState = hdrState k)
    (hprog : s.progress = BitVec.ofNat 6 (hdrProgress k)) (d : BitVec 8) {j : GbeTxIn}
    (hj : j.macTxAck = false) :
    (s.edge p ctrlFifo i).macTxData d j = (p.frameHeader c).getD (k + 1) 0 := by
  obtain ⟨hmac, hip, hudp⟩ := getD_frameHeader p c
  obtain ⟨h0, h1, h2⟩ := h.headers
  unfold edge
  rw [hctrl]
  unfold macTxData hdrState hdrProgress at *
  simp only [hstate, hprog, h0, h1, h2, hj]
  have hget : ∀ (l : List (BitVec 8)) (n : Nat) (old : BitVec 8), n < l.length →
      l.getD n old = l.getD n 0 := by
    intro l n old hn
    rw [List.getD_eq_getElem _ _ hn, List.getD_eq_getElem _ _ hn]
  by_cases hk0 : k < 13
  · simp only [hk0, if_true, Bool.false_eq_true, if_false]
    rw [hmac (k + 1) (by omega), BitVec.toNat_ofNat, Nat.mod_eq_of_lt (by omega)]
    exact hget _ _ _ (show k + 1 < 14 by omega)
  · by_cases hk1 : k < 33
    · simp only [hk0, hk1, if_true, if_false]
      obtain ⟨n, rfl⟩ := Nat.exists_eq_add_of_le' (show 13 ≤ k by omega)
      rw [hip n (by omega), Nat.add_sub_cancel, BitVec.toNat_ofNat, Nat.mod_eq_of_lt (by omega)]
      exact hget _ _ _ (show n < 20 by omega)
    · simp only [hk0, hk1, hk, if_true, if_false]
      obtain ⟨n, rfl⟩ := Nat.exists_eq_add_of_le' (show 33 ≤ k by omega)
      rw [hudp n (by omega), Nat.add_sub_cancel, BitVec.toNat_ofNat, Nat.mod_eq_of_lt (by omega)]
      exact hget _ _ _ (show n < 8 by omega)

/-- Counts that fit the register, compared. -/
theorem ofNat_beq {n a b : Nat} (ha : a < 2 ^ n) (hb : b < 2 ^ n) :
    (BitVec.ofNat n a == BitVec.ofNat n b) = (a == b) := by
  rw [Bool.eq_iff_iff, beq_iff_eq, beq_iff_eq, ← BitVec.toNat_inj, BitVec.toNat_ofNat,
    BitVec.toNat_ofNat, Nat.mod_eq_of_lt ha, Nat.mod_eq_of_lt hb]

theorem hdr0_of_lt {k : Nat} (hk : k < 13) : hdrState k = .appHdr0 ∧ hdrProgress k = k + 1 := by
  unfold hdrState hdrProgress
  rw [if_pos hk, if_pos hk]
  exact ⟨rfl, rfl⟩

theorem hdr1_of_lt {k : Nat} (hlow : 13 ≤ k) (hk : k < 33) :
    hdrState k = .appHdr1 ∧ hdrProgress k = k - 13 := by
  have hne : ¬k < 13 := by omega
  simp [hdrState, hdrProgress, hne, hk]

theorem hdr2_of_lt {k : Nat} (hlow : 33 ≤ k) (hk : k < 41) :
    hdrState k = .appHdr2 ∧ hdrProgress k = k - 33 := by
  have hne0 : ¬k < 13 := by omega
  have hne1 : ¬k < 33 := by omega
  simp [hdrState, hdrProgress, hne0, hne1, hk]

/-- How the state machine counts through the headers. -/
theorem next_of_header {k : Nat} (hk : k < 41) (hstate : s.txState = hdrState k)
    (hprog : s.progress = BitVec.ofNat 6 (hdrProgress k)) (hacked : k < 13 → s.txAcked = true)
    (ctrlEmpty : Bool) :
    s.nextTxState ctrlEmpty i = hdrState (k + 1) ∧
      (k + 1 < 41 → s.nextProgress i = BitVec.ofNat 6 (hdrProgress (k + 1))) ∧
      (s.txState == .appHdr2 && s.progress == 8 - 1) = (k + 1 == 41) := by
  have hadd : ∀ a, BitVec.ofNat 6 a + 1 = BitVec.ofNat 6 (a + 1) :=
    fun a => (BitVec.ofNat_add ..).symm
  by_cases hk0 : k < 13
  · obtain ⟨h, hp⟩ := hdr0_of_lt hk0
    rw [h] at hstate
    rw [hp] at hprog
    have hend : (s.progress == 14 - 1) = (k + 1 == 13) :=
      hprog ▸ ofNat_beq (b := 13) (by omega) (by omega)
    rw [nextTxState, nextProgress, hstate, hacked hk0, hend]
    by_cases hlast : k = 12
    · subst hlast
      exact ⟨rfl, fun _ => rfl, rfl⟩
    · obtain ⟨h', hp'⟩ := hdr0_of_lt (show k + 1 < 13 by omega)
      rw [beq_eq_false_iff_ne.mpr (show k + 1 ≠ 13 by omega), h', hp', hprog, hadd, Bool.or_true,
        beq_eq_false_iff_ne.mpr (show k + 1 ≠ 41 by omega)]
      exact ⟨rfl, fun _ => rfl, rfl⟩
  · by_cases hk1 : k < 33
    · obtain ⟨h, hp⟩ := hdr1_of_lt (by omega) hk1
      rw [h] at hstate
      rw [hp] at hprog
      have hend : (s.progress == 20 - 1) = (k - 13 == 19) :=
        hprog ▸ ofNat_beq (b := 19) (by omega) (by omega)
      rw [nextTxState, nextProgress, hstate, hend]
      by_cases hlast : k = 32
      · subst hlast
        exact ⟨rfl, fun _ => rfl, rfl⟩
      · obtain ⟨h', hp'⟩ := hdr1_of_lt (show 13 ≤ k + 1 by omega) (by omega)
        rw [beq_eq_false_iff_ne.mpr (show k - 13 ≠ 19 by omega), h', hp', hprog, hadd,
          beq_eq_false_iff_ne.mpr (show k + 1 ≠ 41 by omega),
          show k - 13 + 1 = k + 1 - 13 by omega]
        exact ⟨rfl, fun _ => rfl, rfl⟩
    · obtain ⟨h, hp⟩ := hdr2_of_lt (by omega) hk
      rw [h] at hstate
      rw [hp] at hprog
      have hend : (s.progress == 8 - 1) = (k - 33 == 7) :=
        hprog ▸ ofNat_beq (b := 7) (by omega) (by omega)
      rw [nextTxState, nextProgress, hstate, hend]
      by_cases hlast : k = 40
      · subst hlast
        exact ⟨rfl, fun h => absurd h (by omega), rfl⟩
      · obtain ⟨h', hp'⟩ := hdr2_of_lt (show 33 ≤ k + 1 by omega) (by omega)
        rw [beq_eq_false_iff_ne.mpr (show k - 33 ≠ 7 by omega), h', hp', hprog, hadd,
          beq_eq_false_iff_ne.mpr (show k + 1 ≠ 41 by omega),
          show k - 33 + 1 = k + 1 - 33 by omega]
        exact ⟨rfl, fun _ => rfl, rfl⟩

/-- The next byte of the headers. -/
theorem InHeader.step {k : Nat} (h : InHeader p c k s) (hctrl : ctrlFifo.headD ⟨0, 0, 0⟩ = c)
    (hk : k < 41) : InHeader p c (k + 1) (s.edge p ctrlFifo i) := by
  have hprog := h.progress hk
  have hdata := fun d j hj => edge_data (i := i) hctrl h.settling hk h.state hprog d (j := j) hj
  have hsettling := (h.settling.step (i := i) hctrl).mono (Nat.le_succ 3)
  obtain ⟨hstate', hprog', hlast⟩ :=
    next_of_header (i := i) hk h.state hprog h.acked ctrlFifo.isEmpty
  have hnotData : s.txState ≠ .idle ∧ s.txState ≠ .appData ∧ s.txState ≠ .cpuData := by
    rw [h.state]
    unfold hdrState
    split_ifs <;> simp
  refine ⟨hstate', hprog', fun hk' => ?_, hlast, ?_, hsettling, hdata⟩
  · show s.nextTxAcked i = true
    rw [nextTxAcked, h.state, (hdr0_of_lt (by omega)).1, h.acked (by omega), ite_self]
  · show s.nextTxCount (ctrlFifo.headD ⟨0, 0, 0⟩) ctrlFifo.isEmpty i = c.size
    rw [← h.count, nextTxCount]
    obtain ⟨hidle, hdata, hcpu⟩ := hnotData
    split <;> simp_all

end GbeTx

end MlibDevel.Onegbe
