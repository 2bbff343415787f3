import MlibDevel.Lib.Cycles
import MlibDevel.Lib.Octets
import MlibDevel.FortyGbe.Pkg

/-!
# Decoding blocks into words (`IEEE802_3_XL_PCS_DECODER.vhd`)

A block passes six registers on its way to a word.  It is classified by its header and its block
type field, a state machine takes the class and looks one block ahead, and what the word is made of
depends on the state (`xlgmiiRxO_eq`).
-/

namespace MlibDevel.FortyGbe

open Lib

/-! ## The registers -/

/-- The inputs. -/
structure DecoderIn where
  rst : Bool
  pcsBlock : Block
  blockIdle : Bool

/-- `state_type` -/
inductive RxState
  | init
  | c
  | d
  | t
  | e
  deriving DecidableEq, Repr, Inhabited

/-- The registers of `IEEE802_3_XL_PCS_DECODER`. -/
structure Decoder where
  -- behind the first clock cycle
  rxCodedPD1 : BitVec 64
  rxIdleD1 : Bool
  rxTermD1 : Bool
  rxControlD1 : Bool
  rxDataD1 : Bool
  -- behind the second
  rxCodedPD2 : BitVec 64
  rxCodedD1Type : BlockType
  rxIdleD2 : Bool
  rTypeNextIsSOrC : Bool
  -- behind the third
  rxCodedPD3 : BitVec 64
  rxCodedD2Type : BlockType
  rxTermDataMask : Fin 8 → Bool
  rType : WordType
  startStream : Bool
  seqStream : Bool
  -- behind the fourth
  rxRawD : Fin 8 → BitVec 8
  rxRawT : Xlgmii
  rxRawEnTermChar : Fin 8 → Bool
  idleStream : Bool
  startOrSeqStream : Bool
  state : RxState
  -- behind the fifth
  rxRawD1 : Xlgmii
  rxRawTD1 : Xlgmii
  rxErrorEn : Fin 8 → Bool
  rxTermEn : Fin 8 → Bool
  -- behind the sixth
  xlgmiiRxO : Xlgmii
  deriving Inhabited

namespace Decoder

/-- `rx_coded_d1_type` -/
def nextCodedType (s : Decoder) : BlockType :=
  if s.rxControlD1 then
    if s.rxTermD1 then .tx
    else if s.rxCodedPD1.extractLsb' 4 3 = 0b111 then .s0
    else if s.rxCodedPD1.extractLsb' 4 3 = 0b100 then .o0
    else if s.rxCodedPD1.extractLsb' 4 3 = 0b001 then .ix
    else .ex
  else if s.rxDataD1 then .dx else .ex

/-- `R_TYPE_NEXT_IS_S_OR_C`, in the branches of `rx_coded_d1_type` -/
def isSOrC : BlockType → Bool
  | .s0 => true
  | .o0 => true
  | .ix => true
  | _ => false

/-- `R_TYPE` -/
def rTypeOf : BlockType → WordType
  | .dx => .d
  | .ix => .c
  | .s0 => .s
  | .o0 => .c
  | .tx => .t
  | .ex => .e

/-- `next_state` -/
def nextState (state : RxState) (rType : WordType) (nextIsSOrC : Bool) : RxState :=
  match state, rType with
  | .init, .s => .d
  | .init, .c => .c
  | .init, _ => .e
  | .c, .c => .c
  | .c, .s => .d
  | .c, _ => .e
  | .d, .d => .d
  | .d, .t => if nextIsSOrC then .t else .e
  | .d, _ => .e
  | .t, .c => .c
  | .t, .s => .d
  | .t, _ => .e
  | .e, .t => if nextIsSOrC then .t else .e
  | .e, .d => .d
  | .e, .c => .c
  | .e, _ => .e

/-- A rising edge of `CLK_I`. -/
def edge (s : Decoder) (i : DecoderIn) : Decoder where
  rxCodedPD1 := if i.rst then lblockT.p else i.pcsBlock.p
  rxIdleD1 := if i.rst then false else i.blockIdle
  rxDataD1 := if i.rst then false else i.pcsBlock.h.getLsbD 1 && !i.pcsBlock.h.getLsbD 0
  rxControlD1 := if i.rst then true else !i.pcsBlock.h.getLsbD 1 && i.pcsBlock.h.getLsbD 0
  rxTermD1 := if i.rst then false else i.pcsBlock.p.getLsbD 7 && i.pcsBlock.h.getLsbD 0
  rxCodedPD2 := s.rxCodedPD1
  rxIdleD2 := s.rxIdleD1
  rxCodedD1Type := s.nextCodedType
  rTypeNextIsSOrC := isSOrC s.nextCodedType
  rxCodedPD3 := s.rxCodedPD2
  rxCodedD2Type := s.rxCodedD1Type
  rxTermDataMask :=
    fun k => if s.rxIdleD2 then true else decide ((s.rxCodedPD2.extractLsb' 4 3).toNat ≤ k)
  rType := rTypeOf s.rxCodedD1Type
  startStream := s.rxCodedD1Type == .s0
  seqStream := s.rxCodedD1Type == .o0
  rxRawT := {
    c := fun k => if k = 7 then s.rxRawT.c 7 else s.rxTermDataMask k
    d := fun k => if k = 7 then s.rxRawT.d 7
      else if s.rxTermDataMask k then rI else byte s.rxCodedPD3 (k + 1) }
  idleStream := s.rxCodedD2Type == .ix
  startOrSeqStream := s.rxCodedD2Type == .s0 || s.rxCodedD2Type == .o0
  rxRawD := fun k =>
    if k = 0 then if s.startStream then rS else if s.seqStream then rO else byte s.rxCodedPD3 0
    else byte s.rxCodedPD3 k
  rxRawEnTermChar := fun k => (s.rxCodedPD3.extractLsb' 4 3).toNat == k
  state := if i.rst then .init else nextState s.state s.rType s.rTypeNextIsSOrC
  rxRawTD1 := {
    c := s.rxRawT.c
    d := fun k => if s.rxRawEnTermChar k then rT else s.rxRawT.d k }
  rxRawD1 := if s.idleStream then ⟨fun _ => true, s.rxRawT.d⟩
    else ⟨fun k => if k = 0 then s.startOrSeqStream else false, s.rxRawD⟩
  rxErrorEn := fun _ => if i.rst then false else s.state == .e
  rxTermEn := fun _ => if i.rst then false else s.state == .t
  xlgmiiRxO := {
    c := fun k => if s.rxErrorEn k then eblockR.c k else if s.rxTermEn k then s.rxRawTD1.c k
      else s.rxRawD1.c k
    d := fun k => if s.rxErrorEn k then eblockR.d k else if s.rxTermEn k then s.rxRawTD1.d k
      else s.rxRawD1.d k }

/-- The registers at power-up, whatever those hold that are not initialised. -/
def powerUp (s : Decoder) : Decoder := { s with rxRawT := iblockR, rxRawTD1 := iblockR }

end Decoder

/-! ## The classes of blocks -/

/-- What the decoder takes for the block: in a reset `LBLOCK_T`. -/
def DecoderIn.block (i : DecoderIn) : Block := if i.rst then lblockT else i.pcsBlock

/-- What the decoder takes for the idle flag. -/
def DecoderIn.idle (i : DecoderIn) : Bool := if i.rst then false else i.blockIdle

namespace Block

variable (b : Block)

/-- The type of a block. -/
def blockType : BlockType :=
  if b.h = 0b01 then
    if b.p.getLsbD 7 then .tx
    else if b.p.extractLsb' 4 3 = 0b111 then .s0
    else if b.p.extractLsb' 4 3 = 0b100 then .o0
    else if b.p.extractLsb' 4 3 = 0b001 then .ix
    else .ex
  else if b.h = 0b10 then .dx else .ex

/-- The byte `k` of a word with an idle character from the byte on that the block type field
tells. -/
def idleByte (idle : Bool) (k : Fin 8) : BitVec 8 :=
  if k = 7 then rI
  else if idle ∨ (b.p.extractLsb' 4 3).toNat ≤ k then rI else byte b.p (k + 1)

/-- The word for a block, if the state machine goes to `state` with it. -/
def decode (state : RxState) (idle : Bool) : Xlgmii :=
  if state = .e then eblockR
  else if state = .t then {
    c := fun k => k = 7 ∨ idle ∨ (b.p.extractLsb' 4 3).toNat ≤ k
    d := fun k => if (b.p.extractLsb' 4 3).toNat = k then rT else b.idleByte idle k }
  else if b.blockType = .ix then ⟨fun _ => true, b.idleByte idle⟩
  else {
    c := fun k => k = 0 ∧ (b.blockType = .s0 ∨ b.blockType = .o0)
    d := fun k =>
      if k = 0 then if b.blockType = .s0 then rS else if b.blockType = .o0 then rO else byte b.p 0
      else byte b.p k }

end Block

/-! ## The pipeline -/

section Run

variable (s : Decoder) (i : Nat → DecoderIn) (u : Nat)

/-- The decoder in a cycle. -/
def decoderAt (u : Nat) : Decoder := atCycle Decoder.edge s i u

/-! ### The classes -/

theorem rxCodedPD1_eq : (decoderAt s i (u + 1)).rxCodedPD1 = (i u).block.p := by
  show (if (i u).rst then _ else _) = (if (i u).rst then _ else _ : Block).p
  split <;> rfl

theorem rxControlD1_iff : (decoderAt s i (u + 1)).rxControlD1 = true ↔ (i u).block.h = 0b01 := by
  have hheader : ∀ h : BitVec 2, (!h.getLsbD 1 && h.getLsbD 0) = true ↔ h = 0b01 := by decide
  show (if (i u).rst then true else _) = true ↔
    (if (i u).rst then lblockT else (i u).pcsBlock).h = 0b01
  split
  · exact ⟨fun _ => rfl, fun _ => rfl⟩
  · exact hheader _

theorem rxDataD1_iff : (decoderAt s i (u + 1)).rxDataD1 = true ↔ (i u).block.h = 0b10 := by
  have hheader : ∀ h : BitVec 2, (h.getLsbD 1 && !h.getLsbD 0) = true ↔ h = 0b10 := by decide
  show (if (i u).rst then false else _) = true ↔
    (if (i u).rst then lblockT else (i u).pcsBlock).h = 0b10
  split
  · exact ⟨fun h => absurd h Bool.false_ne_true, fun h => absurd h (by decide)⟩
  · exact hheader _

theorem rxTermD1_eq :
    (decoderAt s i (u + 1)).rxTermD1 = ((i u).block.p.getLsbD 7 && (i u).block.h.getLsbD 0) := by
  show (if (i u).rst then false else _)
    = ((if (i u).rst then lblockT else (i u).pcsBlock).p.getLsbD 7
      && (if (i u).rst then lblockT else (i u).pcsBlock).h.getLsbD 0)
  split
  · decide
  · rfl

/-- The type of a block is there two cycles later. -/
theorem rxCodedD1Type_eq : (decoderAt s i (u + 2)).rxCodedD1Type = (i u).block.blockType := by
  show (decoderAt s i (u + 1)).nextCodedType = _
  rw [Decoder.nextCodedType, Block.blockType, rxCodedPD1_eq, rxTermD1_eq]
  simp only [rxControlD1_iff, rxDataD1_iff]
  by_cases hcontrol : (i u).block.h = 0b01
  · have hlow : (0b01 : BitVec 2).getLsbD 0 = true := rfl
    rw [if_pos hcontrol, if_pos hcontrol, hcontrol, hlow, Bool.and_true]
  · rw [if_neg hcontrol, if_neg hcontrol]

theorem rTypeNextIsSOrC_eq :
    (decoderAt s i (u + 2)).rTypeNextIsSOrC = Decoder.isSOrC (i u).block.blockType :=
  congrArg Decoder.isSOrC (rxCodedD1Type_eq s i u)

theorem rType_eq : (decoderAt s i (u + 3)).rType = Decoder.rTypeOf (i u).block.blockType :=
  congrArg Decoder.rTypeOf (rxCodedD1Type_eq s i u)

/-- The state machine takes the class, and looks at the block behind it. -/
theorem rxState_succ (hrst : (i (u + 3)).rst = false) : (decoderAt s i (u + 4)).state
    = Decoder.nextState (decoderAt s i (u + 3)).state (Decoder.rTypeOf (i u).block.blockType)
        (Decoder.isSOrC (i (u + 1)).block.blockType) := by
  show (if (i (u + 3)).rst then _ else Decoder.nextState _ (decoderAt s i (u + 3)).rType
    (decoderAt s i (u + 1 + 2)).rTypeNextIsSOrC) = _
  rw [hrst, rType_eq, rTypeNextIsSOrC_eq]
  rfl

theorem rxState_of_rst (hrst : (i u).rst = true) : (decoderAt s i (u + 1)).state = .init :=
  if_pos hrst

/-! ### The words -/

theorem rxTermDataMask_eq (k : Fin 8) : (decoderAt s i (u + 3)).rxTermDataMask k
    = decide ((i u).idle ∨ ((i u).block.p.extractLsb' 4 3).toNat ≤ k) := by
  show (if (i u).idle then true else
    decide (((decoderAt s i (u + 1)).rxCodedPD1.extractLsb' 4 3).toNat ≤ k)) = _
  rw [rxCodedPD1_eq]
  cases (i u).idle <;> simp

theorem rxCodedPD3_eq : (decoderAt s i (u + 3)).rxCodedPD3 = (i u).block.p := rxCodedPD1_eq s i u

/-- Nothing drives the last byte of `rx_raw_t`. -/
theorem rxRawT_last : (decoderAt s.powerUp i u).rxRawT.c 7 = true ∧
    (decoderAt s.powerUp i u).rxRawT.d 7 = rI := by
  induction u with
  | zero => exact ⟨rfl, rfl⟩
  | succ u ih => exact ih

theorem rxRawT_c (k : Fin 8) : (decoderAt s.powerUp i (u + 4)).rxRawT.c k
    = decide (k = 7 ∨ (i u).idle ∨ ((i u).block.p.extractLsb' 4 3).toNat ≤ k) := by
  show (if k = 7 then (decoderAt s.powerUp i (u + 3)).rxRawT.c 7
    else (decoderAt s.powerUp i (u + 3)).rxTermDataMask k) = _
  rw [(rxRawT_last s i (u + 3)).1, rxTermDataMask_eq]
  by_cases hk : k = 7 <;> simp [hk]

theorem rxRawT_d_of_ne {k : Fin 8} (hk : k ≠ 7) :
    (decoderAt s i (u + 4)).rxRawT.d k = (i u).block.idleByte (i u).idle k := by
  show (if k = 7 then _ else if (decoderAt s i (u + 3)).rxTermDataMask k then rI
    else byte (decoderAt s i (u + 3)).rxCodedPD3 (k + 1)) = _
  rw [if_neg hk, rxTermDataMask_eq, rxCodedPD3_eq, Block.idleByte, if_neg hk]
  simp only [decide_eq_true_eq]

theorem rxRawT_d (k : Fin 8) : (decoderAt s.powerUp i (u + 4)).rxRawT.d k
    = (i u).block.idleByte (i u).idle k := by
  by_cases hk : k = 7
  · rw [hk]
    exact (rxRawT_last s i (u + 4)).2
  · exact rxRawT_d_of_ne s.powerUp i u hk

theorem rxRawTD1_eq : (decoderAt s.powerUp i (u + 5)).rxRawTD1 = {
    c := fun k => k = 7 ∨ (i u).idle ∨ ((i u).block.p.extractLsb' 4 3).toNat ≤ k
    d := fun k => if ((i u).block.p.extractLsb' 4 3).toNat = k then rT
      else (i u).block.idleByte (i u).idle k } := by
  show (⟨(decoderAt s.powerUp i (u + 4)).rxRawT.c,
    fun k => if ((decoderAt s.powerUp i (u + 3)).rxCodedPD3.extractLsb' 4 3).toNat == k.val then rT
      else (decoderAt s.powerUp i (u + 4)).rxRawT.d k⟩ : Xlgmii) = _
  congr 1
  · exact funext fun k => rxRawT_c s i u k
  · funext k
    rw [rxRawT_d, rxCodedPD3_eq]
    simp only [beq_iff_eq]

theorem rxRawD1_eq : (decoderAt s.powerUp i (u + 5)).rxRawD1
    = if (i u).block.blockType = .ix then ⟨fun _ => true, (i u).block.idleByte (i u).idle⟩
      else {
        c := fun k => k = 0 ∧ ((i u).block.blockType = .s0 ∨ (i u).block.blockType = .o0)
        d := fun k =>
          if k = 0 then
            if (i u).block.blockType = .s0 then rS
            else if (i u).block.blockType = .o0 then rO else byte (i u).block.p 0
          else byte (i u).block.p k } := by
  have htype := rxCodedD1Type_eq s.powerUp i u
  show (if (decoderAt s.powerUp i (u + 2)).rxCodedD1Type == .ix
    then ⟨fun _ => true, (decoderAt s.powerUp i (u + 4)).rxRawT.d⟩
    else (⟨fun k => if k = 0 then (decoderAt s.powerUp i (u + 2)).rxCodedD1Type == .s0
        || (decoderAt s.powerUp i (u + 2)).rxCodedD1Type == .o0 else false,
      fun k => if k = 0 then if (decoderAt s.powerUp i (u + 2)).rxCodedD1Type == .s0 then rS
          else if (decoderAt s.powerUp i (u + 2)).rxCodedD1Type == .o0 then rO
          else byte (decoderAt s.powerUp i (u + 3)).rxCodedPD3 0
        else byte (decoderAt s.powerUp i (u + 3)).rxCodedPD3 k⟩ : Xlgmii)) = _
  rw [htype, rxCodedPD3_eq, funext (rxRawT_d s i u)]
  simp only [beq_iff_eq]
  congr 2
  funext k
  generalize (i u).block.blockType = type
  by_cases hk : k = 0
  · simp only [hk, if_true, true_and]
    cases type <;> rfl
  · simp only [hk, if_false, false_and, decide_false]

/-- What is taken for the word. -/
theorem xlgmiiRxO_cases (hrst : (i (u + 4)).rst = false) : (decoderAt s i (u + 6)).xlgmiiRxO
    = if (decoderAt s i (u + 4)).state = .e then eblockR
      else if (decoderAt s i (u + 4)).state = .t then (decoderAt s i (u + 5)).rxRawTD1
      else (decoderAt s i (u + 5)).rxRawD1 := by
  have herror : ∀ k, (decoderAt s i (u + 5)).rxErrorEn k =
      ((decoderAt s i (u + 4)).state == .e) := by
    intro k
    show (if (i (u + 4)).rst then false else _) = _
    rw [hrst]
    rfl
  have hterm : ∀ k, (decoderAt s i (u + 5)).rxTermEn k = ((decoderAt s i (u + 4)).state == .t) := by
    intro k
    show (if (i (u + 4)).rst then false else _) = _
    rw [hrst]
    rfl
  show (⟨fun k => if (decoderAt s i (u + 5)).rxErrorEn k then _
      else if (decoderAt s i (u + 5)).rxTermEn k then _ else _,
    fun k => if (decoderAt s i (u + 5)).rxErrorEn k then _
      else if (decoderAt s i (u + 5)).rxTermEn k then _ else _⟩ : Xlgmii) = _
  simp only [herror, hterm, beq_iff_eq]
  by_cases he : (decoderAt s i (u + 4)).state = .e
  · simp only [he, if_true]
  · by_cases ht : (decoderAt s i (u + 4)).state = .t
    · simp only [ht, if_true, if_false, reduceCtorEq]
      rfl
    · simp only [he, ht, if_false]
      rfl

/-- **The word of a block is there six cycles later.** -/
theorem xlgmiiRxO_eq (hrst : (i (u + 4)).rst = false) : (decoderAt s.powerUp i (u + 6)).xlgmiiRxO
    = (i u).block.decode (decoderAt s.powerUp i (u + 4)).state (i u).idle := by
  rw [xlgmiiRxO_cases _ _ _ hrst, rxRawTD1_eq, rxRawD1_eq]
  rfl

end Run

end MlibDevel.FortyGbe
