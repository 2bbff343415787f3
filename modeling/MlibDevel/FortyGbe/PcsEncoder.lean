import MlibDevel.Lib.Cycles
import MlibDevel.Lib.Octets
import MlibDevel.FortyGbe.Pkg

/-!
# Encoding words into blocks (`IEEE802_3_XL_PCS_ENCODER.vhd`)

A word passes seven registers on its way to a block.  It is classified in the first of them, a state
machine takes the class, and what the block is made of depends on the state (`pcsBlockO_eq`).
-/

namespace MlibDevel.FortyGbe

open Lib

/-! ## The registers -/

/-- The inputs. -/
structure EncoderIn where
  rst : Bool
  xlgmii : Xlgmii

/-- `state_type` -/
inductive TxState
  | init
  | c
  | d
  | t
  | e
  deriving DecidableEq, Repr, Inhabited

/-- The registers of `IEEE802_3_XL_PCS_ENCODER`. -/
structure Encoder where
  -- behind the first clock cycle
  isNotValidISTEChar : Fin 8 → Bool
  isNotData : Bool
  txcD1 : Fin 8 → Bool
  txdD1 : Fin 8 → BitVec 8
  -- behind the second
  dataStream : Bool
  isStartOrSeq : Bool
  isSeqChar : Bool
  isStartChar : Bool
  isIdleChar : Fin 8 → Bool
  isTermChar : Fin 8 → Bool
  isErrorChar : Fin 8 → Bool
  txdD2 : Fin 8 → BitVec 8
  -- behind the third
  dataStreamD1 : Bool
  idleStream : Bool
  seqStream : Bool
  startStream : Bool
  termStream : Bool
  errorStream : Bool
  isIdleCharD1 : Fin 8 → Bool
  isTermCharD1 : Fin 8 → Bool
  txdD3 : Fin 8 → BitVec 8
  -- behind the fourth
  tType : WordType
  dataStreamD2 : Bool
  idleStreamD1 : Bool
  seqStreamD1 : Bool
  startStreamD1 : Bool
  isIdleCharD2 : Fin 8 → Bool
  termByte : BitVec 3
  txdD4 : Fin 8 → BitVec 8
  -- behind the fifth
  state : TxState
  errorState : Bool
  termState : Bool
  dataStreamD3 : Bool
  idleStreamD2 : Bool
  isIdleCharD3 : Fin 8 → Bool
  termByteD1 : BitVec 3
  txCodedCdP0 : BitVec 8
  txdD5 : Fin 8 → BitVec 8
  -- behind the sixth
  txErrorEn : Fin 8 → Bool
  txTermEn : Fin 8 → Bool
  idleStreamD3 : Bool
  txCodedCdD1P : Fin 8 → BitVec 8
  txCodedCdD1H0 : Bool
  txCodedTPD1 : Fin 8 → BitVec 8
  -- behind the seventh
  blockValidO : Bool
  pcsBlockO : Block
  deriving Inhabited

/-- The payload made of these bytes. -/
def payload (b : Fin 8 → BitVec 8) : BitVec 64 :=
  ofBytes (b 7) (b 6) (b 5) (b 4) (b 3) (b 2) (b 1) (b 0)

namespace Encoder

/-- `is_not_valid_ISTE_char` of a control character -/
def notValidISTE (b : BitVec 8) : Bool :=
  b.extractLsb' 3 5 != 0b11111 && b.extractLsb' 3 5 != 0b00000

/-- The lower four bits are those of `char`, and the others are valid. -/
def detect (s : Encoder) (char : BitVec 8) (k : Fin 8) : Bool :=
  !s.isNotValidISTEChar k && (s.txdD1 k).extractLsb' 0 4 == char.extractLsb' 0 4

/-- `XGMII_DECODE_PROC` -/
def nextTType (s : Encoder) : WordType :=
  if s.errorStream then .e
  else if s.termStream then .t
  else if s.dataStreamD1 then .d
  else if s.idleStream then .c
  else if s.startStream then .s
  else if s.seqStream then .c
  else .e

/-- `next_state` -/
def nextState (state : TxState) (tType : WordType) : TxState :=
  match state, tType with
  | .init, .s => .d
  | .init, .c => .c
  | .init, _ => .e
  | .c, .c => .c
  | .c, .s => .d
  | .c, _ => .e
  | .d, .d => .d
  | .d, .t => .t
  | .d, _ => .e
  | .t, .c => .c
  | .t, .s => .d
  | .t, _ => .e
  | .e, .t => .t
  | .e, .d => .d
  | .e, .c => .c
  | .e, _ => .e

/-- The lower bits of `term_byte`: those of three flags in a row, or what they are with no flag
set -/
def termLow (none : BitVec 2) (t₂ t₁ t₀ : Bool) : BitVec 2 :=
  match t₂, t₁, t₀ with
  | false, false, true => 0b00
  | false, true, false => 0b01
  | true, false, false => 0b10
  | false, false, false => none
  | _, _, _ => 0b00

/-- `term_byte` -/
def nextTermByte (t : Fin 8 → Bool) : BitVec 3 :=
  BitVec.ofBool (t 4 || t 5 || t 6 || t 7) ++
    termLow (termLow 0b11 (t 6) (t 5) (t 4)) (t 2) (t 1) (t 0)

/-- `tx_coded_cd_P` -/
def txCodedCdP (s : Encoder) (k : Fin 8) : BitVec 8 :=
  if k = 0 then s.txCodedCdP0 else if s.isIdleCharD3 k then 0 else s.txdD5 k

/-- `tx_coded_t_P`, but for byte 0 -/
def txCodedTP (s : Encoder) (k : Fin 8) : BitVec 8 :=
  if s.isIdleCharD3 k then 0 else s.txdD5 (k - 1)

/-- A rising edge of `CLK_I`. -/
def edge (s : Encoder) (i : EncoderIn) : Encoder where
  isNotValidISTEChar := fun k => if i.xlgmii.c k then notValidISTE (i.xlgmii.d k) else true
  isNotData :=
    i.xlgmii.c 7 || i.xlgmii.c 6 || i.xlgmii.c 5 || i.xlgmii.c 4 || i.xlgmii.c 3 || i.xlgmii.c 2
  txcD1 := i.xlgmii.c
  txdD1 := i.xlgmii.d
  dataStream := if s.txcD1 1 then false else if s.isNotData then false else !s.txcD1 0
  isStartOrSeq := if s.txcD1 1 then false else if s.isNotData then false else s.txcD1 0
  isSeqChar := s.txdD1 0 == rO
  isStartChar := s.detect rS 0
  isIdleChar := s.detect rI
  isTermChar := s.detect rT
  isErrorChar := s.detect rE
  txdD2 := s.txdD1
  dataStreamD1 := s.dataStream
  idleStream := (List.finRange 8).all s.isIdleChar
  seqStream := s.isStartOrSeq && s.isSeqChar
  startStream := s.isStartOrSeq && s.isStartChar
  termStream := (List.finRange 8).any s.isTermChar
  errorStream := (List.finRange 8).any s.isErrorChar
  isIdleCharD1 := s.isIdleChar
  isTermCharD1 := s.isTermChar
  txdD3 := s.txdD2
  tType := s.nextTType
  dataStreamD2 := s.dataStreamD1
  idleStreamD1 := s.idleStream
  seqStreamD1 := s.seqStream
  startStreamD1 := s.startStream
  isIdleCharD2 := s.isIdleCharD1
  termByte := nextTermByte s.isTermCharD1
  txdD4 := s.txdD3
  state := if i.rst then .init else nextState s.state s.tType
  errorState := if i.rst then false else nextState s.state s.tType == .e
  termState := if i.rst then false else nextState s.state s.tType == .t
  dataStreamD3 := s.dataStreamD2
  idleStreamD2 := s.idleStreamD1
  isIdleCharD3 := s.isIdleCharD2
  termByteD1 := s.termByte
  txCodedCdP0 := if s.seqStreamD1 then bO0 else if s.startStreamD1 then bS0 else bCX
  txdD5 := s.txdD4
  txErrorEn := fun _ => s.errorState
  txTermEn := fun _ => s.termState
  idleStreamD3 := s.idleStreamD2
  txCodedCdD1P := fun k => if k = 0 ∧ s.dataStreamD3 then s.txdD5 0 else s.txCodedCdP k
  txCodedCdD1H0 := !s.dataStreamD3
  txCodedTPD1 := fun k => if k = 0 then bT s.termByteD1.toFin else s.txCodedTP k
  blockValidO := if s.txErrorEn 0 then true else if s.txTermEn 0 then true else !s.idleStreamD3
  pcsBlockO := {
    h := if s.txErrorEn 0 then eblockT.h
      else BitVec.ofBool (!s.txCodedCdD1H0) ++ BitVec.ofBool s.txCodedCdD1H0
    p := payload fun k =>
      if s.txErrorEn k then byte eblockT.p k
      else if s.txTermEn k then s.txCodedTPD1 k
      else s.txCodedCdD1P k }

end Encoder

/-! ## The classes of words -/

namespace Xlgmii

variable (w : Xlgmii)

/-- The control character `char` stands in byte `k`. -/
def isControl (char : BitVec 8) (k : Fin 8) : Bool := w.c k && w.d k == char

/-- No byte but the first may be a control character. -/
def noControl : Bool := (List.finRange 8).all fun k => k == 0 || !w.c k

/-- The class of a word. -/
def wordType : WordType :=
  if (List.finRange 8).any (w.isControl rE) then .e
  else if (List.finRange 8).any (w.isControl rT) then .t
  else if w.noControl && !w.c 0 then .d
  else if (List.finRange 8).all (w.isControl rI) then .c
  else if w.noControl && w.isControl rS 0 then .s
  else if w.noControl && w.isControl rO 0 then .c
  else .e

/-- The block for a word, if the state machine goes to `state` with it. -/
def encode (state : TxState) : Block :=
  if state = .e then eblockT
  else {
    h := if w.noControl && !w.c 0 then 0b10 else 0b01
    p := payload fun k =>
      if state = .t then
        if k = 0 then bT (Encoder.nextTermByte (w.isControl rT)).toFin
        else if w.isControl rI k then 0 else w.d (k - 1)
      else if k = 0 then
        if w.noControl && !w.c 0 then w.d 0
        else if w.noControl && w.isControl rO 0 then bO0
        else if w.noControl && w.isControl rS 0 then bS0
        else bCX
      else if w.isControl rI k then 0 else w.d k }

end Xlgmii

/-! ## The pipeline -/

section Run

variable (s : Encoder) (i : Nat → EncoderIn) (t : Nat)

/-- The encoder in a cycle. -/
def encoderAt (t : Nat) : Encoder := atCycle Encoder.edge s i t

/-- A character is known by its upper five and its lower four bits. -/
theorem detect_char {char : BitVec 8} (hchar : char = rI ∨ char = rT ∨ char = rE ∨ char = rS)
    (c : Bool) (b : BitVec 8) :
    (!(if c then Encoder.notValidISTE b else true) && b.extractLsb' 0 4 == char.extractLsb' 0 4)
      = (c && b == char) := by
  cases c with
  | false => rfl
  | true =>
    revert b
    rcases hchar with rfl | rfl | rfl | rfl <;> decide

theorem noControl_eq (w : Xlgmii) (b : Bool) :
    (if w.c 1 then false
      else if w.c 7 || w.c 6 || w.c 5 || w.c 4 || w.c 3 || w.c 2 then false else b)
      = (w.noControl && b) := by
  have hall : w.noControl
      = (!w.c 1 && (!w.c 2 && (!w.c 3 && (!w.c 4 && (!w.c 5 && (!w.c 6 && (!w.c 7 && true))))))) :=
        rfl
  rw [hall]
  cases w.c 1 <;> cases w.c 2 <;> cases w.c 3 <;> cases w.c 4 <;> cases w.c 5 <;> cases w.c 6 <;>
    cases w.c 7 <;> rfl

/-! ### The classes -/

theorem isIdleChar_eq : (encoderAt s i (t + 2)).isIdleChar = (i t).xlgmii.isControl rI :=
  funext fun k => detect_char (Or.inl rfl) ((i t).xlgmii.c k) ((i t).xlgmii.d k)

theorem isTermChar_eq : (encoderAt s i (t + 2)).isTermChar = (i t).xlgmii.isControl rT :=
  funext fun k => detect_char (Or.inr (Or.inl rfl)) ((i t).xlgmii.c k) ((i t).xlgmii.d k)

theorem isErrorChar_eq : (encoderAt s i (t + 2)).isErrorChar = (i t).xlgmii.isControl rE :=
  funext fun k => detect_char (Or.inr (Or.inr (Or.inl rfl))) ((i t).xlgmii.c k) ((i t).xlgmii.d k)

theorem isStartChar_eq : (encoderAt s i (t + 2)).isStartChar = (i t).xlgmii.isControl rS 0 :=
  detect_char (Or.inr (Or.inr (Or.inr rfl))) ((i t).xlgmii.c 0) ((i t).xlgmii.d 0)

theorem dataStream_eq :
    (encoderAt s i (t + 2)).dataStream = ((i t).xlgmii.noControl && !(i t).xlgmii.c 0) :=
  noControl_eq (i t).xlgmii _

theorem isStartOrSeq_eq :
    (encoderAt s i (t + 2)).isStartOrSeq = ((i t).xlgmii.noControl && (i t).xlgmii.c 0) :=
  noControl_eq (i t).xlgmii _

theorem startStream_eq :
    (encoderAt s i (t + 3)).startStream =
      ((i t).xlgmii.noControl && (i t).xlgmii.isControl rS 0) := by
  show ((encoderAt s i (t + 2)).isStartOrSeq && (encoderAt s i (t + 2)).isStartChar) = _
  rw [isStartOrSeq_eq, isStartChar_eq, Xlgmii.isControl, Bool.and_assoc, Bool.and_self_left]

theorem seqStream_eq :
    (encoderAt s i (t + 3)).seqStream =
      ((i t).xlgmii.noControl && (i t).xlgmii.isControl rO 0) := by
  show ((encoderAt s i (t + 2)).isStartOrSeq && (i t).xlgmii.d 0 == rO) = _
  rw [isStartOrSeq_eq, Xlgmii.isControl, Bool.and_assoc]

/-- The class of a word is there four cycles later. -/
theorem tType_eq : (encoderAt s i (t + 4)).tType = (i t).xlgmii.wordType := by
  show (encoderAt s i (t + 3)).nextTType = _
  rw [Encoder.nextTType, startStream_eq, seqStream_eq]
  show (if (List.finRange 8).any (encoderAt s i (t + 2)).isErrorChar then _
    else if (List.finRange 8).any (encoderAt s i (t + 2)).isTermChar then _
    else if (encoderAt s i (t + 2)).dataStream then _
    else if (List.finRange 8).all (encoderAt s i (t + 2)).isIdleChar then _ else _) = _
  rw [isErrorChar_eq, isTermChar_eq, dataStream_eq, isIdleChar_eq]
  rfl

/-- The state machine takes the class. -/
theorem encoderState_succ (hrst : (i (t + 4)).rst = false) : (encoderAt s i (t + 5)).state
    = Encoder.nextState (encoderAt s i (t + 4)).state (i t).xlgmii.wordType := by
  show (if (i (t + 4)).rst then _ else Encoder.nextState _ (encoderAt s i (t + 4)).tType) = _
  rw [hrst, tType_eq]
  rfl

theorem state_of_rst (hrst : (i t).rst = true) : (encoderAt s i (t + 1)).state = .init :=
  if_pos hrst

/-! ### The blocks -/

theorem errorState_iff :
    (encoderAt s i (t + 1)).errorState = true ↔ (encoderAt s i (t + 1)).state = .e := by
  show (if (i t).rst then false else _) = true ↔ (if (i t).rst then _ else _) = _
  split
  · exact ⟨fun h => absurd h Bool.false_ne_true, fun h => nomatch h⟩
  · exact beq_iff_eq

theorem termState_iff :
    (encoderAt s i (t + 1)).termState = true ↔ (encoderAt s i (t + 1)).state = .t := by
  show (if (i t).rst then false else _) = true ↔ (if (i t).rst then _ else _) = _
  split
  · exact ⟨fun h => absurd h Bool.false_ne_true, fun h => nomatch h⟩
  · exact beq_iff_eq

theorem isIdleCharD3_eq : (encoderAt s i (t + 5)).isIdleCharD3 = (i t).xlgmii.isControl rI :=
  isIdleChar_eq s i t

theorem termByteD1_eq :
    (encoderAt s i (t + 5)).termByteD1 = Encoder.nextTermByte ((i t).xlgmii.isControl rT) :=
  congrArg Encoder.nextTermByte (isTermChar_eq s i t)

theorem dataStreamD3_eq :
    (encoderAt s i (t + 5)).dataStreamD3 = ((i t).xlgmii.noControl && !(i t).xlgmii.c 0) :=
  dataStream_eq s i t

theorem txCodedCdP0_eq : (encoderAt s i (t + 5)).txCodedCdP0
    = if (i t).xlgmii.noControl && (i t).xlgmii.isControl rO 0 then bO0
      else if (i t).xlgmii.noControl && (i t).xlgmii.isControl rS 0 then bS0 else bCX := by
  show (if (encoderAt s i (t + 3)).seqStream then _
    else if (encoderAt s i (t + 3)).startStream then _ else _) = _
  rw [seqStream_eq, startStream_eq]

theorem txCodedTPD1_eq (k : Fin 8) : (encoderAt s i (t + 6)).txCodedTPD1 k
    = if k = 0 then bT (Encoder.nextTermByte ((i t).xlgmii.isControl rT)).toFin
      else if (i t).xlgmii.isControl rI k then 0 else (i t).xlgmii.d (k - 1) := by
  show (if k = 0 then bT (encoderAt s i (t + 5)).termByteD1.toFin
    else if (encoderAt s i (t + 5)).isIdleCharD3 k then 0 else _) = _
  rw [termByteD1_eq, isIdleCharD3_eq]
  rfl

theorem txCodedCdD1P_eq (k : Fin 8) : (encoderAt s i (t + 6)).txCodedCdD1P k
    = if k = 0 then
        if (i t).xlgmii.noControl && !(i t).xlgmii.c 0 then (i t).xlgmii.d 0
        else if (i t).xlgmii.noControl && (i t).xlgmii.isControl rO 0 then bO0
        else if (i t).xlgmii.noControl && (i t).xlgmii.isControl rS 0 then bS0
        else bCX
      else if (i t).xlgmii.isControl rI k then 0 else (i t).xlgmii.d k := by
  show (if k = 0 ∧ (encoderAt s i (t + 5)).dataStreamD3 then (i t).xlgmii.d 0
    else if k = 0 then (encoderAt s i (t + 5)).txCodedCdP0
    else if (encoderAt s i (t + 5)).isIdleCharD3 k then 0 else (i t).xlgmii.d k) = _
  rw [dataStreamD3_eq, txCodedCdP0_eq, isIdleCharD3_eq]
  by_cases hk : k = 0
  · simp only [hk, true_and, if_true]
  · simp only [hk, false_and, if_false]

/-- **The block of a word is there seven cycles later.** -/
theorem pcsBlockO_eq :
    (encoderAt s i (t + 7)).pcsBlockO = (i t).xlgmii.encode (encoderAt s i (t + 5)).state := by
  show (⟨if (encoderAt s i (t + 5)).errorState then eblockT.h
      else BitVec.ofBool (!!(encoderAt s i (t + 5)).dataStreamD3)
        ++ BitVec.ofBool (!(encoderAt s i (t + 5)).dataStreamD3),
    payload fun k => if (encoderAt s i (t + 5)).errorState then byte eblockT.p k
      else if (encoderAt s i (t + 5)).termState then (encoderAt s i (t + 6)).txCodedTPD1 k
      else (encoderAt s i (t + 6)).txCodedCdD1P k⟩ : Block) = _
  have herror := errorState_iff s i (t + 4)
  have hterm := termState_iff s i (t + 4)
  by_cases he : (encoderAt s i (t + 5)).state = .e
  · rw [herror.mpr he, Xlgmii.encode, if_pos he]
    show (⟨eblockT.h, payload fun k => byte eblockT.p k⟩ : Block) = eblockT
    decide
  · rw [Bool.eq_false_iff.mpr (mt herror.mp he), Xlgmii.encode, if_neg he, dataStreamD3_eq]
    congr 1
    · cases (i t).xlgmii.noControl && !(i t).xlgmii.c 0 <;> rfl
    · congr 1
      funext k
      rw [txCodedTPD1_eq, txCodedCdD1P_eq]
      simp only [Bool.false_eq_true, if_false, hterm]

end Run

end MlibDevel.FortyGbe
