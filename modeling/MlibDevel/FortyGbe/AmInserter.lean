import MlibDevel.Lib.Cycles
import MlibDevel.Lib.Parity
import MlibDevel.FortyGbe.Pkg

/-!
# Inserting alignment markers (`IEEE802_3_XL_PCS_AM_INSERTER.vhd`)

On each lane every 16384th block is replaced by the marker of the lane.  It carries the
bit-interleaved parity of the marker before and of the blocks since then (`marker_parity`).
-/

namespace MlibDevel.FortyGbe

open Lib

/-! ## The parity of a block -/

/-- `pcs_blocks(i).P & pcs_blocks(i).H` -/
def Block.bits (b : Block) : BitVec 66 := b.p ++ b.h

/-- The block with these bits. -/
def Block.ofBits (l : BitVec 66) : Block := ⟨l.extractLsb' 0 2, l.extractLsb' 2 64⟩

/-- The bits that a bit of `BIP_current` is made of. -/
def bipBits : Fin 8 → List Nat
  | 0 => [2, 10, 18, 26, 34, 42, 50, 58]
  | 1 => [3, 11, 19, 27, 35, 43, 51, 59]
  | 2 => [4, 12, 20, 28, 36, 44, 52, 60]
  | 3 => [0, 5, 13, 21, 29, 37, 45, 53, 61]
  | 4 => [1, 6, 14, 22, 30, 38, 46, 54, 62]
  | 5 => [7, 15, 23, 31, 39, 47, 55, 63]
  | 6 => [8, 16, 24, 32, 40, 48, 56, 64]
  | 7 => [9, 17, 25, 33, 41, 49, 57, 65]

/-- The exclusive or of some bits. -/
def xorBits (l : BitVec 66) (places : List Nat) : Bool :=
  places.foldr (fun k x => l.getLsbD k ^^ x) false

/-- `BIP_current` of the bits `L` -/
def bipOf (l : BitVec 66) : BitVec 8 := vectorOf fun j => xorBits l (bipBits j)

/-- `BIP_current` -/
def bipCurrent (b : Block) : BitVec 8 := bipOf b.bits

theorem Block.bits_ofBits (l : BitVec 66) : (Block.ofBits l).bits = l := by
  apply BitVec.eq_of_getLsbD_eq
  intro j hj
  rw [bits, ofBits, BitVec.getLsbD_append]
  split
  · next hlt => simp [hlt]
  · next hge =>
    have h64 : j - 2 < 64 := by omega
    have hadd : 2 + (j - 2) = j := by omega
    simp [h64, hadd]

theorem Block.ofBits_bits (b : Block) : Block.ofBits b.bits = b := by
  rcases b with ⟨h, p⟩
  rw [ofBits, bits, Block.mk.injEq]
  constructor
  · apply BitVec.eq_of_getLsbD_eq
    intro j hj
    rw [BitVec.getLsbD_extractLsb', BitVec.getLsbD_append, Nat.zero_add, if_pos hj,
      decide_eq_true hj, Bool.true_and]
  · apply BitVec.eq_of_getLsbD_eq
    intro j hj
    rw [BitVec.getLsbD_extractLsb', BitVec.getLsbD_append, if_neg (by omega),
      Nat.add_sub_cancel_left, decide_eq_true hj, Bool.true_and]

theorem xorBits_xor (l e : BitVec 66) : ∀ places : List Nat,
    xorBits (l ^^^ e) places = (xorBits l places ^^ xorBits e places)
  | [] => rfl
  | k :: places => by
    have ih := xorBits_xor l e places
    show ((l ^^^ e).getLsbD k ^^ xorBits (l ^^^ e) places)
      = ((l.getLsbD k ^^ xorBits l places) ^^ (e.getLsbD k ^^ xorBits e places))
    rw [ih, BitVec.getLsbD_xor, Bool.xor_assoc, Bool.xor_assoc, Bool.xor_left_comm (e.getLsbD k)]

/-- Parities are added as the bits are. -/
theorem bipOf_xor (l e : BitVec 66) : bipOf (l ^^^ e) = bipOf l ^^^ bipOf e := by
  apply BitVec.eq_of_getLsbD_eq
  intro j hj
  simp only [bipOf, BitVec.getLsbD_xor, getLsbD_vectorOf _ hj, xorBits_xor]

theorem bipOf_zero : bipOf 0 = 0 := by decide

/-- Each bit of a block is seen by the parity. -/
theorem bipOf_twoPow : ∀ k : Fin 66, bipOf (BitVec.twoPow 66 k) ≠ 0 := by decide +kernel

/-! ## The registers -/

/-- The inputs. -/
structure InserterIn where
  rst : Bool
  txEnable : Bool
  pcsBlocks : Fin 4 → Block

/-- The registers of `IEEE802_3_XL_PCS_AM_INSERTER`. -/
structure AmInserter where
  insertAm : Bool
  resetBip3 : Bool
  amCounter : BitVec 15
  pcsBlocks : Fin 4 → Block
  bip3 : Fin 4 → BitVec 8

namespace AmInserter

/-- `am_counter_done` -/
def amCounterDone (s : AmInserter) : Bool := s.amCounter == 16383

/-- `THROTTLE_REQUEST_O` -/
def throttleRequest (s : AmInserter) (i : InserterIn) : Bool :=
  if s.amCounterDone then i.txEnable else false

/-- `AM_COUNTER_PROC` -/
def amCounterProc (s : AmInserter) (i : InserterIn) : AmInserter :=
  if i.rst then { s with amCounter := 0, insertAm := false, resetBip3 := true }
  else if i.txEnable then
    let s' :=
      if s.amCounterDone then { s with insertAm := true, amCounter := 0 }
      else { s with insertAm := false, amCounter := s.amCounter + 1 }
    { s' with resetBip3 := s.insertAm }
  else s

/-- `BIP7` -/
def bip7 (s : AmInserter) (i : Fin 4) : BitVec 8 := ~~~(s.bip3 i ^^^ bipCurrent (s.pcsBlocks i))

/-- `alignment_marker_block` -/
def alignmentMarkerBlock (s : AmInserter) (i : Fin 4) : Block where
  h := (amBlocks i).h
  p := s.bip7 i ++ (amBlocks i).p.extractLsb' 32 24 ++ (s.bip3 i ^^^ bipCurrent (s.pcsBlocks i)) ++
    (amBlocks i).p.extractLsb' 0 24

/-- `PCS_LANE_PROC` of the four lanes; the other process has `s'` made of `s`. -/
def pcsLaneProc (s s' : AmInserter) (i : InserterIn) : AmInserter :=
  if i.txEnable then
    { s' with
      pcsBlocks := fun j => if s.insertAm then s.alignmentMarkerBlock j else i.pcsBlocks j
      bip3 := fun j =>
        if s.resetBip3 then bipCurrent (s.pcsBlocks j)
        else s.bip3 j ^^^ bipCurrent (s.pcsBlocks j) }
  else s'

/-- A rising edge of `CLK_I`. -/
def edge (s : AmInserter) (i : InserterIn) : AmInserter := s.pcsLaneProc (s.amCounterProc i) i

end AmInserter

/-! ## A run with the transmitter enabled -/

/-- No marker is due at once, as after a reset. -/
def AmInserter.ready (s : AmInserter) : AmInserter := { s with insertAm := false }

/-- The field of a marker that carries the parity, `P(31 downto 24)`. -/
def bipField (b : Block) : BitVec 8 := b.p.extractLsb' 24 8

/-- Between the markers `m` and `m'` there is none. -/
structure Consecutive (marked : Nat → Bool) (m m' : Nat) : Prop where
  lt : m < m'
  first : marked m = true
  second : marked m' = true
  between : ∀ t, m < t → t < m' → marked t = false

/-- A marker that is not the first comes after another one. -/
theorem exists_consecutive {marked : Nat → Bool} {m m' : Nat} (hlt : m < m') (hm : marked m = true)
    (hm' : marked m' = true) : ∃ last, m ≤ last ∧ Consecutive marked last m' := by
  induction hd : m' - m using Nat.strongRecOn generalizing m with
  | ind d ih =>
    by_cases hnone : ∀ t, m < t → t < m' → marked t = false
    · exact ⟨m, Nat.le_refl m, ⟨hlt, hm, hm', hnone⟩⟩
    · obtain ⟨t, hsome⟩ := Classical.not_forall.mp hnone
      rw [Classical.not_imp, Classical.not_imp, Bool.not_eq_false] at hsome
      obtain ⟨hlo, hhi, ht⟩ := hsome
      obtain ⟨last, hle, hlast⟩ := ih (m' - t) (by omega) hhi ht rfl
      exact ⟨last, by omega, hlast⟩

section Run

variable (s : AmInserter) (blocks : Nat → Fin 4 → Block)

/-- The inserter in a cycle. -/
def inserterAt (t : Nat) : AmInserter :=
  atCycle AmInserter.edge s.ready (fun t => ⟨false, true, blocks t⟩) t

/-- The blocks in a cycle are markers. -/
def markedAt : Nat → Bool
  | 0 => false
  | t + 1 => (inserterAt s blocks t).insertAm

/-- What an edge does. -/
theorem AmInserter.edge_enabled (s : AmInserter) (b : Fin 4 → Block) : s.edge ⟨false, true, b⟩ =
    { insertAm := s.amCounterDone
      resetBip3 := s.insertAm
      amCounter := if s.amCounterDone then 0 else s.amCounter + 1
      pcsBlocks := fun j => if s.insertAm then s.alignmentMarkerBlock j else b j
      bip3 := fun j => if s.resetBip3 then bipCurrent (s.pcsBlocks j)
        else s.bip3 j ^^^ bipCurrent (s.pcsBlocks j) } := by
  unfold edge pcsLaneProc amCounterProc
  cases hdone : s.amCounterDone <;> simp

theorem inserterAt_succ (t : Nat) :
    inserterAt s blocks (t + 1) = (inserterAt s blocks t).edge ⟨false, true, blocks t⟩ := rfl

/-! ### Where the markers are -/

/-- The counter is at zero when a marker is due. -/
theorem amCounter_of_insertAm {t : Nat} (h : (inserterAt s blocks t).insertAm = true) :
    (inserterAt s blocks t).amCounter = 0 := by
  cases t with
  | zero => cases h
  | succ t =>
    rw [inserterAt_succ, AmInserter.edge_enabled] at h ⊢
    exact if_pos h

/-- Behind a marker the counter counts the blocks. -/
theorem amCounter_behind {t : Nat} (h : (inserterAt s blocks t).insertAm = true) : ∀ k, k ≤ 16383 →
    (inserterAt s blocks (t + k)).amCounter.toNat = k
  | 0, _ => by
    rw [Nat.add_zero, amCounter_of_insertAm s blocks h]
    rfl
  | k + 1, hk => by
    have ih := amCounter_behind h k (by omega)
    have hdone : (inserterAt s blocks (t + k)).amCounterDone = false := by
      rw [AmInserter.amCounterDone, beq_eq_false_iff_ne]
      bv_omega
    show (inserterAt s blocks (t + k + 1)).amCounter.toNat = _
    rw [inserterAt_succ, AmInserter.edge_enabled, hdone, if_neg Bool.false_ne_true]
    show ((inserterAt s blocks (t + k)).amCounter + 1).toNat = _
    bv_omega

/-- From whatever it starts at, the counter gets to where a marker is due. -/
theorem marker_comes : ∃ m, markedAt s blocks m = true := by
  apply Classical.byContradiction
  intro hall
  have hnone := not_exists.mp hall
  have hnever : ∀ t, (inserterAt s blocks t).amCounter ≠ 16383 := by
    intro t hdue
    apply hnone (t + 1 + 1)
    show (inserterAt s blocks (t + 1)).insertAm = true
    rw [inserterAt_succ, AmInserter.edge_enabled]
    exact beq_iff_eq.mpr hdue
  have hcounts : ∀ t, (inserterAt s blocks t).amCounter.toNat
      = (s.amCounter.toNat + t) % 32768 := by
    intro t
    induction t with
    | zero => exact (Nat.mod_eq_of_lt s.amCounter.isLt).symm
    | succ t ih =>
      have hdone : (inserterAt s blocks t).amCounterDone = false :=
        beq_eq_false_iff_ne.mpr (hnever t)
      rw [inserterAt_succ, AmInserter.edge_enabled, hdone, if_neg Bool.false_ne_true]
      show ((inserterAt s blocks t).amCounter + 1).toNat = _
      rw [BitVec.toNat_add, ih]
      show ((s.amCounter.toNat + t) % 32768 + 1) % 32768 = _
      omega
  have hlt : s.amCounter.toNat < 32768 := s.amCounter.isLt
  have hthere := hcounts (49151 - s.amCounter.toNat)
  apply hnever (49151 - s.amCounter.toNat)
  apply BitVec.eq_of_toNat_eq
  rw [hthere]
  show _ = 16383
  omega

/-- Behind a marker the next one is the 16384th block. -/
theorem markedAt_behind {m : Nat} (h : markedAt s blocks m = true) {k : Nat} (hk : k < 16384) :
    markedAt s blocks (m + (k + 1)) = decide (k = 16383) := by
  cases m with
  | zero => cases h
  | succ t =>
    have hcount := amCounter_behind s blocks h k (by omega)
    show (inserterAt s blocks (t + 1 + k)).insertAm = _
    rw [Nat.add_right_comm, inserterAt_succ, AmInserter.edge_enabled]
    show ((inserterAt s blocks (t + k)).amCounter == 16383) = decide (k = 16383)
    rw [Bool.eq_iff_iff, beq_iff_eq, decide_eq_true_eq]
    bv_omega

variable {s blocks} in
/-- **Two markers are 16384 blocks apart.** -/
theorem Consecutive.spacing {m m' : Nat} (h : Consecutive (markedAt s blocks) m m') :
    m' = m + 16384 := by
  have hlt := h.lt
  have hnext := markedAt_behind s blocks h.first (show 16383 < 16384 by omega)
  rcases Nat.lt_trichotomy m' (m + 16384) with hbefore | heq | hafter
  · have hno := markedAt_behind s blocks h.first (show m' - m - 1 < 16384 by omega)
    rw [show m + (m' - m - 1 + 1) = m' by omega, h.second, eq_comm, decide_eq_true_eq] at hno
    omega
  · exact heq
  · have hno := h.between (m + 16384) (by omega) hafter
    rw [show m + (16383 + 1) = m + 16384 by omega, hno] at hnext
    exact absurd hnext (by decide)

/-- Behind a marker another one comes. -/
theorem consecutive_of_marker {m : Nat} (h : markedAt s blocks m = true) :
    Consecutive (markedAt s blocks) m (m + 16384) := by
  refine ⟨by omega, h, ?_, fun t hlo hhi => ?_⟩
  · exact markedAt_behind s blocks h (k := 16383) (by omega)
  · obtain ⟨k, rfl⟩ : ∃ k, t = m + (k + 1) := ⟨t - m - 1, by omega⟩
    rw [markedAt_behind s blocks h (by omega), decide_eq_false (by omega)]

/-! ### What they carry -/

/-- A block that is not replaced comes out in the next cycle. -/
theorem pcsBlocks_succ {t : Nat} (h : markedAt s blocks (t + 1) = false) :
    (inserterAt s blocks (t + 1)).pcsBlocks = blocks t := by
  have hinsert : (inserterAt s blocks t).insertAm = false := h
  rw [inserterAt_succ, AmInserter.edge_enabled, hinsert]
  rfl

theorem bipField_marker (s : AmInserter) (i : Fin 4) :
    bipField (s.alignmentMarkerBlock i) = s.bip3 i ^^^ bipCurrent (s.pcsBlocks i) := by
  apply BitVec.eq_of_getLsbD_eq
  intro j hj
  have hlt : 24 + j - 24 < 8 := by omega
  rw [bipField, AmInserter.alignmentMarkerBlock, BitVec.getLsbD_extractLsb', BitVec.getLsbD_append,
    if_neg (by omega), BitVec.getLsbD_append, if_pos hlt, Nat.add_sub_cancel_left]
  simp [hj]

/-- The register of the parity is started anew with each marker. -/
theorem bip3_succ (i : Fin 4) (t : Nat) : (inserterAt s blocks (t + 1)).bip3 i
    = if (inserterAt s blocks t).resetBip3 then bipCurrent ((inserterAt s blocks t).pcsBlocks i)
      else (inserterAt s blocks t).bip3 i ^^^ bipCurrent ((inserterAt s blocks t).pcsBlocks i) := by
  rw [inserterAt_succ, AmInserter.edge_enabled]

theorem resetBip3_succ (t : Nat) :
    (inserterAt s blocks (t + 1)).resetBip3 = markedAt s blocks (t + 1) := by
  rw [inserterAt_succ, AmInserter.edge_enabled]
  rfl

variable {s blocks} in
/-- **A marker carries the parity of the marker before and of the blocks since then.** -/
theorem marker_parity {m m' : Nat} (h : Consecutive (markedAt s blocks) m m') (i : Fin 4) :
    bipField ((inserterAt s blocks m').pcsBlocks i)
      = accumulated (fun t => bipCurrent ((inserterAt s blocks t).pcsBlocks i)) m (m' - m) := by
  have hspacing := h.spacing
  obtain ⟨n, hn⟩ : ∃ n, m' = m + (n + 1) + 1 := ⟨16382, hspacing⟩
  clear hspacing
  subst hn
  have hinsert : (inserterAt s blocks (m + (n + 1))).insertAm = true := h.second
  have hclear : (inserterAt s blocks m).resetBip3 = true := by
    cases m with
    | zero => cases h.first
    | succ m => exact (resetBip3_succ s blocks m).trans h.first
  have hkeep : ∀ t, m < t → t ≤ m + n → (inserterAt s blocks t).resetBip3 = false := by
    intro t hlo hhi
    obtain ⟨t, rfl⟩ : ∃ t', t = t' + 1 := ⟨t - 1, by omega⟩
    exact (resetBip3_succ s blocks t).trans (h.between _ hlo (by omega))
  have hreg : (inserterAt s blocks (m + (n + 1))).bip3 i
      = accumulated (fun t => bipCurrent ((inserterAt s blocks t).pcsBlocks i)) m (n + 1) :=
    register_accumulated (r := fun t => (inserterAt s blocks t).bip3 i)
      (bip3_succ s blocks i) hclear
      n hkeep
  have hmarker : (inserterAt s blocks (m + (n + 1) + 1)).pcsBlocks i
      = (inserterAt s blocks (m + (n + 1))).alignmentMarkerBlock i := by
    rw [inserterAt_succ, AmInserter.edge_enabled, hinsert]
    rfl
  have hlength : m + (n + 1) + 1 - m = n + 1 + 1 := by omega
  rw [hmarker, bipField_marker, hreg, hlength]
  rfl

end Run

end MlibDevel.FortyGbe
