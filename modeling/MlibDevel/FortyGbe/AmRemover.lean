import MlibDevel.FortyGbe.AmInserter

/-!
# Taking alignment markers out (`IEEE802_3_XL_PCS_AM_REMOVER.vhd`)

The blocks of the inserter come over four lanes, on each of which bits may be flipped.  The remover
marks the blocks valid that are no markers, and compares the parity of what it has received since
the marker before with the one that a marker carries (`link_checks_parity`).
-/

namespace MlibDevel.FortyGbe

open Lib

/-! ## The registers -/

/-- The inputs. -/
structure RemoverIn where
  alignStatus : Bool
  pcsBlocks : Fin 4 → Block
  amValid : Bool

/-- The registers of `IEEE802_3_XL_PCS_AM_REMOVER`. -/
structure AmRemover where
  pcsBlockValid : Fin 4 → Bool
  pcsBlocks : Fin 4 → Block
  resetBip3 : Fin 4 → Bool
  bip3 : Fin 4 → BitVec 8
  bipError : Fin 4 → Bool
  bipErrorO : Bool

namespace AmRemover

/-- `AM_REMOVER_PROC` of the four lanes -/
def amRemoverProc (s : AmRemover) (i : RemoverIn) : AmRemover where
  pcsBlocks := i.pcsBlocks
  pcsBlockValid := fun _ => if i.amValid then false else i.alignStatus
  resetBip3 := fun _ => i.amValid
  bip3 := fun j =>
    if s.resetBip3 j then bipCurrent (s.pcsBlocks j) else s.bip3 j ^^^ bipCurrent (s.pcsBlocks j)
  bipError := fun j => if s.resetBip3 j then s.bip3 j != bipField (s.pcsBlocks j) else false
  bipErrorO := s.bipErrorO

/-- A rising edge of `CLK_I`, with `BIP_ERROR_OUTPUT_REGISTER_proc`. -/
def edge (s : AmRemover) (i : RemoverIn) : AmRemover :=
  { s.amRemoverProc i with
    bipErrorO := s.bipError 0 || s.bipError 1 || s.bipError 2 || s.bipError 3 }

/-- `BLOCKs_VALID_O` -/
def blocksValid (s : AmRemover) : Bool :=
  s.pcsBlockValid 0 && s.pcsBlockValid 1 && s.pcsBlockValid 2 && s.pcsBlockValid 3

end AmRemover

/-! ## The lanes -/

/-- The blocks with the bits of the masks flipped. -/
def flipped (masks : Fin 4 → BitVec 66) (b : Fin 4 → Block) : Fin 4 → Block :=
  fun i => Block.ofBits ((b i).bits ^^^ masks i)

theorem flipped_zero {masks : Fin 4 → BitVec 66} {i : Fin 4} (h : masks i = 0) (b : Fin 4 → Block) :
    flipped masks b i = b i := by
  have hbits : (b i).bits ^^^ (0 : BitVec 66) = (b i).bits := BitVec.xor_zero
  rw [flipped, h, hbits, Block.ofBits_bits]

theorem bipCurrent_flipped (masks : Fin 4 → BitVec 66) (b : Fin 4 → Block) (i : Fin 4) :
    bipCurrent (flipped masks b i) = bipCurrent (b i) ^^^ bipOf (masks i) := by
  rw [bipCurrent, flipped, Block.bits_ofBits, bipOf_xor, bipCurrent]

section Link

variable (s : AmInserter) (r : AmRemover) (blocks : Nat → Fin 4 → Block)
  (masks : Nat → Fin 4 → BitVec 66)

/-- What comes over the lanes. -/
def receivedAt (t : Nat) : Fin 4 → Block := flipped (masks t) (inserterAt s blocks t).pcsBlocks

/-- The remover in a cycle, with the lanes aligned and the markers known. -/
def removerAt (t : Nat) : AmRemover :=
  atCycle AmRemover.edge r (fun t => ⟨true, receivedAt s blocks masks t, markedAt s blocks t⟩) t

theorem removerAt_succ (t : Nat) : removerAt s r blocks masks (t + 1)
    = (removerAt s r blocks masks t).edge
        ⟨true, receivedAt s blocks masks t, markedAt s blocks t⟩ := rfl

/-! ### The blocks -/

/-- What is marked valid of what the inserter has been given in the first `n` cycles. -/
def delivered (n : Nat) : List (Fin 4 → Block) :=
  (List.range n).filterMap fun t =>
    let remover := removerAt s r blocks masks (t + 2)
    if remover.blocksValid then some remover.pcsBlocks else none

/-- What the inserter has not replaced of it, with the bits that are flipped on the way. -/
def passedOn (n : Nat) : List (Fin 4 → Block) :=
  (List.range n).filterMap fun t =>
    if markedAt s blocks (t + 1) then none else some (flipped (masks (t + 1)) (blocks t))

theorem blocksValid_succ (t : Nat) :
    (removerAt s r blocks masks (t + 1)).blocksValid = !markedAt s blocks t := by
  rw [removerAt_succ]
  cases hmark : markedAt s blocks t <;> rfl

theorem pcsBlocks_remover_succ (t : Nat) :
    (removerAt s r blocks masks (t + 1)).pcsBlocks = receivedAt s blocks masks t := rfl

/-- The blocks that are no markers are marked valid, in order. -/
theorem delivered_eq_passedOn (n : Nat) :
    delivered s r blocks masks n = passedOn s blocks masks n := by
  unfold delivered passedOn
  congr 1
  funext t
  have hvalid := blocksValid_succ s r blocks masks (t + 1)
  have hblocks := pcsBlocks_remover_succ s r blocks masks (t + 1)
  show (if (removerAt s r blocks masks (t + 1 + 1)).blocksValid
    then some (removerAt s r blocks masks (t + 1 + 1)).pcsBlocks else none) = _
  rw [hvalid, hblocks]
  cases hmark : markedAt s blocks (t + 1) with
  | true => rfl
  | false =>
    rw [receivedAt, pcsBlocks_succ s blocks hmark]
    rfl

/-! ### The parity -/

/-- The register of the parity in the cycle after a block has come in. -/
theorem bip3_remover_succ (i : Fin 4) (t : Nat) : (removerAt s r blocks masks (t + 1 + 1)).bip3 i
    = if markedAt s blocks t then bipCurrent (receivedAt s blocks masks t i)
      else (removerAt s r blocks masks (t + 1)).bip3 i ^^^ bipCurrent
        (receivedAt s blocks masks t i) :=
  rfl

theorem bipError_remover_succ (i : Fin 4) (t : Nat) :
    (removerAt s r blocks masks (t + 1 + 1)).bipError i = if markedAt s blocks t
      then (removerAt s r blocks masks (t + 1)).bip3 i != bipField (receivedAt s blocks masks t i)
      else false := rfl

theorem bipErrorO_remover_succ (t : Nat) : (removerAt s r blocks masks (t + 1)).bipErrorO = true
    ↔ ∃ i, (removerAt s r blocks masks t).bipError i = true := by
  rw [removerAt_succ]
  show (_ || _ || _ || _) = true ↔ _
  simp only [Bool.or_eq_true]
  constructor
  · rintro (((h | h) | h) | h)
    · exact ⟨0, h⟩
    · exact ⟨1, h⟩
    · exact ⟨2, h⟩
    · exact ⟨3, h⟩
  · rintro ⟨i, h⟩
    match i, h with
    | 0, h => exact Or.inl (Or.inl (Or.inl h))
    | 1, h => exact Or.inl (Or.inl (Or.inr h))
    | 2, h => exact Or.inl (Or.inr h)
    | 3, h => exact Or.inr h

variable {s blocks} in
/-- What the remover holds when a marker comes is the parity of the marker before and of the blocks
since then, changed by the parity of the flipped bits. -/
theorem bip3_remover_of_consecutive {m m' : Nat} (h : Consecutive (markedAt s blocks) m m')
    (i : Fin 4) :
    (removerAt s r blocks masks (m' + 1)).bip3 i
      = accumulated (fun t => bipCurrent ((inserterAt s blocks t).pcsBlocks i)) m (m' - m)
        ^^^ accumulated (fun t => bipOf (masks t i)) m (m' - m) := by
  have hlt := h.lt
  obtain ⟨n, hn⟩ : ∃ n, m' = m + (n + 1) := ⟨m' - m - 1, by omega⟩
  subst hn
  have hreg : (removerAt s r blocks masks (m + (n + 1) + 1)).bip3 i
      = accumulated (fun t => bipCurrent (receivedAt s blocks masks t i)) m (n + 1) :=
    register_accumulated (r := fun t => (removerAt s r blocks masks (t + 1)).bip3 i)
      (bip3_remover_succ s r blocks masks i) h.first n fun t hlo hhi => h.between t hlo (by omega)
  rw [hreg, Nat.add_sub_cancel_left, ← accumulated_xor]
  exact accumulated_congr fun k _ => bipCurrent_flipped _ _ i

variable {s blocks masks} in
/-- The check of a lane, when the marker itself comes as it was sent. -/
theorem bipError_of_consecutive {m m' : Nat} (h : Consecutive (markedAt s blocks) m m') (i : Fin 4)
    (hmarker : masks m' i = 0) : (removerAt s r blocks masks (m' + 2)).bipError i = true
      ↔ accumulated (fun t => bipOf (masks t i)) m (m' - m) ≠ 0 := by
  have hcarried : bipField (receivedAt s blocks masks m' i)
      = accumulated (fun t => bipCurrent ((inserterAt s blocks t).pcsBlocks i)) m (m' - m) := by
    rw [receivedAt, flipped_zero hmarker, marker_parity h i]
  have hheld := bip3_remover_of_consecutive r masks h i
  show (removerAt s r blocks masks (m' + 1 + 1)).bipError i = true ↔ _
  rw [bipError_remover_succ, h.second, if_pos rfl, hheld, hcarried, bne_iff_ne]
  apply not_congr
  generalize accumulated (fun t => bipOf (masks t i)) m (m' - m) = e
  generalize accumulated _ m (m' - m) = x
  constructor
  · intro heq
    have hcancel : x ^^^ (x ^^^ e) = x ^^^ x := congrArg (x ^^^ ·) heq
    rwa [← BitVec.xor_assoc, BitVec.xor_self, BitVec.zero_xor] at hcancel
  · intro he
    rw [he]
    exact BitVec.xor_zero

variable {s blocks masks} in
/-- No bit has been flipped since the marker before. -/
theorem bipErrorO_of_none {m m' : Nat} (h : Consecutive (markedAt s blocks) m m')
    (hnone : ∀ t, m ≤ t → t ≤ m' → ∀ i, masks t i = 0) :
    (removerAt s r blocks masks (m' + 3)).bipErrorO = false := by
  have hlt := h.lt
  rw [← Bool.not_eq_true]
  intro hraised
  obtain ⟨i, hi⟩ := (bipErrorO_remover_succ s r blocks masks (m' + 2)).mp hraised
  rw [bipError_of_consecutive r h i (hnone m' (Nat.le_of_lt hlt) (Nat.le_refl _) i)] at hi
  apply hi
  apply accumulated_zero
  intro k hk
  rw [hnone (m + k) (by omega) (by omega) i]
  exact bipOf_zero

variable {s blocks masks} in
/-- One bit has been flipped since the marker before. -/
theorem bipErrorO_of_one {m m' : Nat} (h : Consecutive (markedAt s blocks) m m') {i : Fin 4}
    {u : Nat} {k : Fin 66} (hlo : m < u) (hhi : u < m') (hflip : masks u i = BitVec.twoPow 66 k)
    (hothers : ∀ t, m ≤ t → t ≤ m' → t ≠ u → masks t i = 0) :
    (removerAt s r blocks masks (m' + 3)).bipErrorO = true := by
  apply (bipErrorO_remover_succ s r blocks masks (m' + 2)).mpr
  refine ⟨i, ?_⟩
  rw [bipError_of_consecutive r h i (hothers m' (by omega) (Nat.le_refl _) (by omega))]
  have hu : m + (u - m) = u := by omega
  have hsingle : accumulated (fun t => bipOf (masks t i)) m (m' - m)
      = bipOf (masks (m + (u - m)) i) := by
    apply accumulated_single (by omega)
    intro j hj hne
    rw [hothers (m + j) (by omega) (by omega) (by omega)]
    exact bipOf_zero
  rw [hsingle, hu, hflip]
  exact bipOf_twoPow k

/-- **The markers go, the other blocks stay, and the parity finds a flipped bit.**  Whatever the
registers hold at first, a marker comes, and from then on each 16384th block is one.  The remover
marks the blocks valid, in order, that the inserter has not replaced.  For each marker that comes
after another one `BIP_ERROR_O` is low if no bit has been flipped since then.  It is high if one bit
has, of one block between the two, on some lane. -/
theorem link_checks_parity :
    (∃ m, markedAt s blocks m = true) ∧
    (∀ m, markedAt s blocks m = true →
      ∀ m', Consecutive (markedAt s blocks) m m' ↔ m' = m + 16384) ∧
    (∀ n, delivered s r blocks masks n = passedOn s blocks masks n) ∧
    (∀ m m', m < m' → markedAt s blocks m = true → markedAt s blocks m' = true →
      (∀ t, m ≤ t → t ≤ m' → ∀ i, masks t i = 0) →
      (removerAt s r blocks masks (m' + 3)).bipErrorO = false) ∧
    (∀ m m', Consecutive (markedAt s blocks) m m' → ∀ (i : Fin 4) (u : Nat) (k : Fin 66),
      m < u → u < m' → masks u i = BitVec.twoPow 66 k →
      (∀ t, m ≤ t → t ≤ m' → t ≠ u → masks t i = 0) →
      (removerAt s r blocks masks (m' + 3)).bipErrorO = true) := by
  refine ⟨marker_comes s blocks, fun m hm m' => ⟨fun h => h.spacing, ?_⟩,
    delivered_eq_passedOn s r blocks masks, ?_, ?_⟩
  · rintro rfl
    exact consecutive_of_marker s blocks hm
  · intro m m' hlt hm hm' hnone
    obtain ⟨last, hle, hlast⟩ := exists_consecutive hlt hm hm'
    exact bipErrorO_of_none r hlast fun t hlo hhi => hnone t (by omega) hhi
  · intro m m' h i u k hlo hhi hflip hothers
    exact bipErrorO_of_one r h hlo hhi hflip hothers

end Link

end MlibDevel.FortyGbe
