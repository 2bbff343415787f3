import Mathlib.Order.Fin.Basic
import MlibDevel.FortyGbe.PcsEncoder
import MlibDevel.FortyGbe.PcsDecoder

/-!
# From words to blocks and back (`IEEE802_3_XL_PCS_ENCODER.vhd`, `IEEE802_3_XL_PCS_DECODER.vhd`)

A stream of frames, idle words and ordered sets comes back from the decoder as it was
(`decoder_reproduces`).  A word for which the encoder has sent the error block comes back as an
error only within a frame (`error_delivered_iff`).
-/

namespace MlibDevel.FortyGbe

open Lib

/-! ## Streams of words -/

namespace Xlgmii

variable (w : Xlgmii)

/-- Only the first byte is a control character, `char`. -/
structure LeadBy (char : BitVec 8) : Prop where
  control : ∀ k, w.c k = (k == 0)
  first : w.d 0 = char

/-- The terminate character is in byte `j`, and idle characters are behind it. -/
structure TerminatedAt (j : Fin 8) : Prop where
  data : ∀ k, k < j → w.c k = false
  control : ∀ k, j ≤ k → w.c k = true
  terminate : w.d j = rT
  idle : ∀ k, j < k → w.d k = rI

end Xlgmii

/-- A word of a stream, outside of a frame or within one, before it and behind it. -/
inductive Framed : Bool → Xlgmii → Bool → Prop
  | idle : Framed false iblockR false
  | ordered {w : Xlgmii} (h : w.LeadBy rO) : Framed false w false
  | start {w : Xlgmii} (h : w.LeadBy rS) : Framed false w true
  | data {w : Xlgmii} (h : ∀ k, w.c k = false) : Framed true w true
  | terminate {w : Xlgmii} (j : Fin 8) (h : w.TerminatedAt j) : Framed true w false

/-! ## The words of a stream -/

@[simp] theorem byte_payload (b : Fin 8 → BitVec 8) (k : Fin 8) : byte (payload b) k = b k := by
  match k with
  | 0 => exact byte_ofBytes_0 ..
  | 1 => exact byte_ofBytes_1 ..
  | 2 => exact byte_ofBytes_2 ..
  | 3 => exact byte_ofBytes_3 ..
  | 4 => exact byte_ofBytes_4 ..
  | 5 => exact byte_ofBytes_5 ..
  | 6 => exact byte_ofBytes_6 ..
  | 7 => exact byte_ofBytes_7 ..

/-- The block type field is in the first byte. -/
theorem typeField_payload (b : Fin 8 → BitVec 8) :
    (payload b).extractLsb' 4 3 = (b 0).extractLsb' 4 3 ∧ (payload b).getLsbD 7 =
      (b 0).getLsbD 7 := by
  have hfirst : byte (payload b) 0 = b 0 := byte_payload b 0
  constructor
  · rw [← hfirst]
    ext j hj
    simp only [byte, BitVec.getElem_extractLsb', BitVec.getLsbD_extractLsb',
      show 4 + j < 8 by omega, decide_true, Bool.true_and, Nat.mul_zero, Nat.zero_add]
  · rw [← hfirst, byte, BitVec.getLsbD_extractLsb']
    rfl

namespace Xlgmii

variable {w : Xlgmii} {char : BitVec 8} {j : Fin 8}

theorem any_isControl_eq_false (h : ∀ k, w.isControl char k = false) :
    (List.finRange 8).any (w.isControl char) = false := by
  rw [List.any_eq_false]
  intro k _
  rw [h k]
  exact Bool.false_ne_true

theorem all_isControl_eq_false {k : Fin 8} (h : w.isControl char k = false) :
    (List.finRange 8).all (w.isControl char) = false := by
  rw [List.all_eq_false]
  exact ⟨k, List.mem_finRange k, by rw [h]; exact Bool.false_ne_true⟩

theorem isControl_of_data {k : Fin 8} (h : w.c k = false) : w.isControl char k = false := by
  rw [isControl, h, Bool.false_and]

/-! ### Words that begin with a control character -/

namespace LeadBy

variable (h : w.LeadBy char)

include h

theorem noControl : w.noControl = true := by
  rw [Xlgmii.noControl, List.all_eq_true]
  intro k _
  rw [h.control k, Bool.or_not_self]

theorem isControl (char' : BitVec 8) (k : Fin 8) :
    w.isControl char' k = (k == 0 && char == char') := by
  rw [Xlgmii.isControl, h.control k]
  by_cases hk : k = 0
  · rw [hk, h.first]
  · rw [beq_eq_false_iff_ne.mpr hk, Bool.false_and, Bool.false_and]

theorem isControl_of_ne {char' : BitVec 8} (hne : char ≠ char') (k : Fin 8) :
    w.isControl char' k = false := by
  rw [h.isControl, beq_eq_false_iff_ne.mpr hne, Bool.and_false]

theorem isControl_first : w.isControl char 0 = true := by
  rw [h.isControl, beq_self_eq_true, beq_self_eq_true]
  rfl

end LeadBy

theorem LeadBy.ordered_type (h : w.LeadBy rO) : w.wordType = .c := by
  rw [wordType, any_isControl_eq_false (h.isControl_of_ne (by decide)),
    any_isControl_eq_false (h.isControl_of_ne (by decide)), h.control 0,
    all_isControl_eq_false (h.isControl_of_ne (by decide) 0), h.isControl_of_ne (by decide) 0,
    h.noControl, h.isControl_first]
  rfl

theorem LeadBy.start_type (h : w.LeadBy rS) : w.wordType = .s := by
  rw [wordType, any_isControl_eq_false (h.isControl_of_ne (by decide)),
    any_isControl_eq_false (h.isControl_of_ne (by decide)), h.control 0,
    all_isControl_eq_false (h.isControl_of_ne (by decide) 0), h.noControl, h.isControl_first]
  rfl

/-- The block of such a word, but for the block type field. -/
theorem LeadBy.encode_eq (h : w.LeadBy char) {type : BitVec 8} {state : TxState}
    (hchar : char ≠ rI) (hstate : state ≠ .e ∧ state ≠ .t)
    (htype : type = if w.isControl rO 0 then bO0 else if w.isControl rS 0 then bS0 else bCX) :
    w.encode state = ⟨0b01, payload fun k => if k = 0 then type else w.d k⟩ := by
  rw [encode, if_neg hstate.1, htype, h.noControl, h.control 0]
  congr 1
  congr 1
  funext k
  rw [if_neg hstate.2, h.isControl_of_ne hchar]
  rfl

theorem encode_ordered (h : w.LeadBy rO) {state : TxState} (hstate : state ≠ .e ∧ state ≠ .t) :
    w.encode state = ⟨0b01, payload fun k => if k = 0 then bO0 else w.d k⟩ :=
  h.encode_eq (by decide) hstate (by rw [h.isControl_first]; rfl)

theorem encode_start (h : w.LeadBy rS) {state : TxState} (hstate : state ≠ .e ∧ state ≠ .t) :
    w.encode state = ⟨0b01, payload fun k => if k = 0 then bS0 else w.d k⟩ :=
  h.encode_eq (by decide) hstate (by rw [h.isControl_of_ne (by decide), h.isControl_first]; rfl)

/-! ### Data -/

theorem data_type (h : ∀ k, w.c k = false) : w.wordType = .d := by
  have hnone : ∀ char k, w.isControl char k = false := fun char k => isControl_of_data (h k)
  have hall : w.noControl = true := by
    rw [Xlgmii.noControl, List.all_eq_true]
    intro k _
    rw [h k, Bool.not_false, Bool.or_true]
  rw [wordType, any_isControl_eq_false (hnone rE), any_isControl_eq_false (hnone rT), hall, h 0]
  rfl

theorem encode_data (h : ∀ k, w.c k = false) {state : TxState} (hstate : state ≠ .e ∧ state ≠ .t) :
    w.encode state = ⟨0b10, payload w.d⟩ := by
  have hall : w.noControl = true := by
    rw [Xlgmii.noControl, List.all_eq_true]
    intro k _
    rw [h k, Bool.not_false, Bool.or_true]
  rw [encode, if_neg hstate.1, hall, h 0]
  congr 1
  congr 1
  funext k
  rw [if_neg hstate.2, isControl_of_data (h k)]
  by_cases hk : k = 0
  · rw [if_pos hk, hk]
    rfl
  · rw [if_neg hk]
    rfl

/-! ### The end of a frame -/

namespace TerminatedAt

variable (h : w.TerminatedAt j)

include h

/-- The terminate character is the only one. -/
theorem isControl_rT (k : Fin 8) : w.isControl rT k = (k == j) := by
  rcases lt_trichotomy k j with hlt | rfl | hgt
  · rw [isControl_of_data (h.data k hlt), beq_eq_false_iff_ne.mpr (ne_of_lt hlt)]
  · rw [Xlgmii.isControl, h.control k (le_refl k), h.terminate, beq_self_eq_true, beq_self_eq_true]
    rfl
  · rw [Xlgmii.isControl, h.idle k hgt, beq_eq_false_iff_ne.mpr (ne_of_gt hgt)]
    exact Bool.and_false _

theorem isControl_rI {k : Fin 8} (hk : k ≤ j) : w.isControl rI k = false := by
  rcases lt_or_eq_of_le hk with hlt | rfl
  · exact isControl_of_data (h.data k hlt)
  · rw [Xlgmii.isControl, h.terminate]
    exact Bool.and_false _

theorem isControl_rE (k : Fin 8) : w.isControl rE k = false := by
  rcases lt_trichotomy k j with hlt | rfl | hgt
  · exact isControl_of_data (h.data k hlt)
  · rw [Xlgmii.isControl, h.terminate]
    exact Bool.and_false _
  · rw [Xlgmii.isControl, h.idle k hgt]
    exact Bool.and_false _

theorem wordType_eq : w.wordType = .t := by
  have hany : (List.finRange 8).any (w.isControl rT) = true := by
    rw [List.any_eq_true]
    exact ⟨j, List.mem_finRange j, by rw [h.isControl_rT, beq_self_eq_true]⟩
  rw [wordType, any_isControl_eq_false h.isControl_rE, hany]
  rfl

theorem encode_eq : w.encode .t =
    ⟨0b01, payload fun k =>
      if k = 0 then bT j else if w.isControl rI k then 0 else w.d (k - 1)⟩ := by
  have htype : ∀ j : Fin 8, (Encoder.nextTermByte fun k => k == j).toFin = j := by decide
  have hlast : w.c 7 = true := h.control 7 (Fin.le_last j)
  have hall : w.noControl = false := by
    rw [Xlgmii.noControl, List.all_eq_false]
    exact ⟨7, List.mem_finRange 7, by rw [hlast]; decide⟩
  rw [encode, if_neg (by decide), hall, funext h.isControl_rT, htype]
  simp only [if_true]
  rfl

end TerminatedAt

theorem encode_idle {state : TxState} (hstate : state ≠ .e ∧ state ≠ .t) :
    iblockR.encode state = iblockT := by
  have hword : iblockR.encode .c = iblockT := by decide
  rw [← hword, encode, encode, if_neg hstate.1, if_neg (by decide)]
  simp only [hstate.2, if_false, reduceCtorEq]

end Xlgmii

/-! ## What is decoded -/

namespace Xlgmii

variable {w : Xlgmii} {j : Fin 8} {state : RxState} {idle : Bool}

@[ext] theorem ext {v w : Xlgmii} (hc : ∀ k, v.c k = w.c k) (hd : ∀ k, v.d k = w.d k) : v = w := by
  cases v
  cases w
  rw [mk.injEq]
  exact ⟨funext hc, funext hd⟩

/-- The type of a control block is told by its first byte. -/
theorem blockType_payload {b : Fin 8 → BitVec 8} {first : BitVec 8} (h : b 0 = first) :
    (⟨0b01, payload b⟩ : Block).blockType
      = if first.getLsbD 7 then .tx
        else if first.extractLsb' 4 3 = 0b111 then .s0
        else if first.extractLsb' 4 3 = 0b100 then .o0
        else if first.extractLsb' 4 3 = 0b001 then .ix
        else .ex := by
  rw [Block.blockType, if_pos rfl]
  simp only [(typeField_payload b).1, (typeField_payload b).2, h]

theorem type_ordered (d : Fin 8 → BitVec 8) :
    (⟨0b01, payload fun k => if k = 0 then bO0 else d k⟩ : Block).blockType = .o0 :=
  (@blockType_payload _ bO0 rfl).trans (by decide)

theorem type_start (d : Fin 8 → BitVec 8) :
    (⟨0b01, payload fun k => if k = 0 then bS0 else d k⟩ : Block).blockType = .s0 :=
  (@blockType_payload _ bS0 rfl).trans (by decide)

theorem type_data (d : Fin 8 → BitVec 8) : (⟨0b10, payload d⟩ : Block).blockType = .dx := by
  rw [Block.blockType, if_neg (show ¬(0b10 : BitVec 2) = 0b01 by decide), if_pos rfl]

theorem type_terminated (j : Fin 8) (d : Fin 8 → BitVec 8) :
    (⟨0b01, payload fun k => if k = 0 then bT j else d k⟩ : Block).blockType = .tx := by
  have hfirst : ∀ j, (bT j).getLsbD 7 = true := by decide
  rw [blockType_payload (if_pos rfl), hfirst j]
  rfl

theorem decode_idle (hstate : state ≠ .e ∧ state ≠ .t) : iblockT.decode state true = iblockR := by
  rw [Block.decode, if_neg hstate.1, if_neg hstate.2, if_pos (by decide)]
  apply Xlgmii.ext
  · exact fun _ => rfl
  · intro k
    show (if k = 7 then rI else if true = true ∨ _ then rI else _) = rI
    simp only [true_or, if_true, ite_self]

/-- The first byte comes from the block type. -/
theorem LeadBy.decode_eq (h : w.LeadBy char) (hstate : state ≠ .e ∧ state ≠ .t) {first : BitVec 8}
    (htype :
      ((⟨0b01, payload fun k => if k = 0 then first else w.d k⟩ : Block).blockType = .s0 ∧
        char = rS) ∨
      ((⟨0b01, payload fun k => if k = 0 then first else w.d k⟩ : Block).blockType = .o0 ∧
        char = rO)) :
    (⟨0b01, payload fun k => if k = 0 then first else w.d k⟩ : Block).decode state idle = w := by
  rw [Block.decode, if_neg hstate.1, if_neg hstate.2]
  rcases htype with ⟨htype, hchar⟩ | ⟨htype, hchar⟩ <;>
  · rw [htype, if_neg (by decide)]
    apply Xlgmii.ext
    · intro k
      rw [h.control k]
      by_cases hk : k = 0 <;> simp [hk]
    · intro k
      by_cases hk : k = 0
      · simp [hk, h.first, hchar]
      · simp [hk]

theorem decode_data (h : ∀ k, w.c k = false) (hstate : state ≠ .e ∧ state ≠ .t) :
    (⟨0b10, payload w.d⟩ : Block).decode state idle = w := by
  rw [Block.decode, if_neg hstate.1, if_neg hstate.2, type_data, if_neg (by decide)]
  apply Xlgmii.ext
  · intro k
    rw [h k]
    simp
  · intro k
    by_cases hk : k = 0
    · simp [hk]
      exact byte_payload w.d 0
    · simp [hk]

/-- The bytes of the data have moved up by one. -/
theorem TerminatedAt.byte_eq (h : w.TerminatedAt j) {k : Fin 8} (hk : k < j) :
    byte (payload fun k =>
    if k = 0 then bT j else if w.isControl rI k then 0 else w.d (k - 1)) (k + 1) = w.d k := by
  have hlt : k.val < j.val := hk
  have hnext : ∀ (k : Fin 8) (h : k.val + 1 < 8), (⟨k.val + 1, h⟩ : Fin 8) ≠ 0 ∧
      (⟨k.val + 1, h⟩ : Fin 8) - 1 = k := by
    decide
  have hbyte := byte_payload (fun k =>
    if k = 0 then bT j else if w.isControl rI k then 0 else w.d (k - 1)) ⟨k.val + 1, by omega⟩
  refine hbyte.trans ?_
  rw [if_neg (hnext k (by omega)).1, h.isControl_rI (show k.val + 1 ≤ j.val by omega),
    (hnext k (by omega)).2]
  rfl

theorem TerminatedAt.decode_eq (h : w.TerminatedAt j) :
    (⟨0b01, payload fun k => if k = 0 then bT j
      else if w.isControl rI k then 0 else w.d (k - 1)⟩ : Block).decode .t false = w := by
  have hfield : ∀ j, ((bT j).extractLsb' 4 3).toNat = j.val := by decide
  rw [Block.decode, if_neg (by decide), if_pos rfl]
  simp only [Block.idleByte, (typeField_payload _).1, if_true, hfield]
  apply Xlgmii.ext
  · intro k
    rcases lt_or_ge k j with hlt | hge
    · rw [h.data k hlt]
      simp only [Bool.false_eq_true, false_or, decide_eq_false_iff_not, not_or]
      exact ⟨ne_of_lt (lt_of_lt_of_le hlt (Fin.le_last j)), Nat.not_le.mpr hlt⟩
    · rw [h.control k hge]
      simp only [Bool.false_eq_true, false_or, decide_eq_true_eq]
      exact Or.inr hge
  · intro k
    show (if j.val = k.val then rT
      else if k = 7 then rI
      else if false = true ∨ j.val ≤ k.val then rI
      else byte _ (k + 1)) = w.d k
    simp only [Bool.false_eq_true, false_or]
    rcases lt_trichotomy k j with hlt | rfl | hgt
    · have hne : k ≠ 7 := ne_of_lt (lt_of_lt_of_le hlt (Fin.le_last j))
      rw [if_neg (Nat.ne_of_gt hlt), if_neg hne, if_neg (Nat.not_le.mpr hlt), h.byte_eq hlt]
    · rw [if_pos rfl, h.terminate]
    · rw [if_neg (Nat.ne_of_lt hgt), if_pos (Nat.le_of_lt hgt), ite_self, h.idle k hgt]

end Xlgmii

/-! ## A stream over the line -/

/-- The detection of idle blocks in `PCS_IDLE_BLOCK_FILTER` -/
def idleBlockDetected (b : Block) : Bool :=
  ((List.finRange 8).all fun k => byte b.p k == byte iblockT.p k) &&
    (!b.h.getLsbD 1 && b.h.getLsbD 0)

/-- The end of a frame is not taken for an idle block. -/
theorem notIdle_terminated (j : Fin 8) (d : Fin 8 → BitVec 8) :
    idleBlockDetected ⟨0b01, payload fun k => if k = 0 then bT j else d k⟩ = false := by
  have hfirst : ∀ j, (bT j == byte iblockT.p 0) = false := by decide
  have hnone : ((List.finRange 8).all fun k : Fin 8 =>
      byte (payload fun k => if k = 0 then bT j else d k) k == byte iblockT.p k) = false := by
    rw [List.all_eq_false]
    refine ⟨0, List.mem_finRange 0, ?_⟩
    rw [byte_payload]
    simp only [if_true]
    exact Bool.eq_false_iff.mp (hfirst j)
  rw [idleBlockDetected, hnone, Bool.false_and]

/-- A state of the encoder that fits in with a stream, within a frame or not -/
def TxState.Fits (state : TxState) : Bool → Prop
  | true => state = .d
  | false => state = .init ∨ state = .c ∨ state = .t

/-- A state of the decoder that fits in with a stream -/
def RxState.Fits (state : RxState) : Bool → Prop
  | true => state = .d
  | false => state = .init ∨ state = .c ∨ state = .t

/-- The state tells which of its blocks is sent for a word. -/
def Xlgmii.SentIn (w : Xlgmii) (state : TxState) : Prop :=
  if w.wordType = .t then state = .t else state ≠ .e ∧ state ≠ .t

namespace Framed

variable {a b : Bool} {w : Xlgmii} {tx : TxState} {rx : RxState} {next : Bool}

/-- The encoder keeps up with a stream. -/
theorem tx_step (h : Framed a w b) (htx : tx.Fits a) :
    (Encoder.nextState tx w.wordType).Fits b ∧ w.SentIn (Encoder.nextState tx w.wordType) := by
  have hidle : iblockR.wordType = .c := by decide
  cases h with
  | idle =>
    rw [Xlgmii.SentIn, hidle]
    rcases htx with rfl | rfl | rfl <;> exact ⟨Or.inr (Or.inl rfl), by decide⟩
  | ordered h =>
    rw [Xlgmii.SentIn, h.ordered_type]
    rcases htx with rfl | rfl | rfl <;> exact ⟨Or.inr (Or.inl rfl), by decide⟩
  | start h =>
    rw [Xlgmii.SentIn, h.start_type]
    rcases htx with rfl | rfl | rfl <;> exact ⟨rfl, by decide⟩
  | data h =>
    rw [Xlgmii.SentIn, Xlgmii.data_type h]
    rcases htx with rfl
    exact ⟨rfl, by decide⟩
  | terminate j h =>
    rw [Xlgmii.SentIn, h.wordType_eq]
    rcases htx with rfl
    exact ⟨Or.inr (Or.inr rfl), by decide⟩

/-- In a reset nothing but gaps is sent. -/
theorem tx_reset (h : Framed false w false) : w.SentIn .init := by
  have hidle : iblockR.wordType = .c := by decide
  cases h with
  | idle =>
    rw [Xlgmii.SentIn, hidle]
    decide
  | ordered h =>
    rw [Xlgmii.SentIn, h.ordered_type]
    decide

/-- Only at the end of a frame does the block come from the other half of the encoder. -/
theorem sent (h : Framed a w b) (hsent : w.SentIn tx) :
    if a = true ∧ b = false then tx = .t else tx ≠ .e ∧ tx ≠ .t := by
  have hidle : iblockR.wordType = .c := by decide
  cases h with
  | idle => rwa [Xlgmii.SentIn, hidle] at hsent
  | ordered h => rwa [Xlgmii.SentIn, h.ordered_type] at hsent
  | start h => rwa [Xlgmii.SentIn, h.start_type] at hsent
  | data h => rwa [Xlgmii.SentIn, Xlgmii.data_type h] at hsent
  | terminate j h => rwa [Xlgmii.SentIn, h.wordType_eq] at hsent

/-- Outside of a frame the decoder sees a start or a control block. -/
theorem isSOrC_eq (h : Framed false w b) (hsent : w.SentIn tx) :
    Decoder.isSOrC (w.encode tx).blockType = true := by
  have hstate := h.sent hsent
  cases h with
  | idle =>
    rw [Xlgmii.encode_idle hstate]
    decide
  | ordered h =>
    rw [Xlgmii.encode_ordered h hstate, Xlgmii.type_ordered]
    rfl
  | start h =>
    rw [Xlgmii.encode_start h hstate, Xlgmii.type_start]
    rfl

/-- The decoder keeps up with the blocks of a stream, and gives the words back. -/
theorem rx_step (h : Framed a w b) (hsent : w.SentIn tx) (hrx : rx.Fits a)
    (hnext : a = true → b = false → next = true) :
    (Decoder.nextState rx (Decoder.rTypeOf (w.encode tx).blockType) next).Fits b ∧
      (w.encode tx).decode (Decoder.nextState rx (Decoder.rTypeOf (w.encode tx).blockType) next)
        (idleBlockDetected (w.encode tx)) = w := by
  have hstate := h.sent hsent
  cases h with
  | idle =>
    have hidle : idleBlockDetected iblockT = true := by decide
    have hnextState : Decoder.nextState rx (Decoder.rTypeOf iblockT.blockType) next = .c := by
      rw [show iblockT.blockType = .ix by decide]
      rcases hrx with rfl | rfl | rfl <;> rfl
    rw [Xlgmii.encode_idle hstate, hidle, hnextState]
    exact ⟨Or.inr (Or.inl rfl), Xlgmii.decode_idle (by decide)⟩
  | ordered h =>
    rw [Xlgmii.encode_ordered h hstate, Xlgmii.type_ordered]
    have hnextState : Decoder.nextState rx (Decoder.rTypeOf .o0) next = .c := by
      rcases hrx with rfl | rfl | rfl <;> rfl
    rw [hnextState]
    exact ⟨Or.inr (Or.inl rfl), h.decode_eq (by decide) (Or.inr ⟨Xlgmii.type_ordered _, rfl⟩)⟩
  | start h =>
    rw [Xlgmii.encode_start h hstate, Xlgmii.type_start]
    have hnextState : Decoder.nextState rx (Decoder.rTypeOf .s0) next = .d := by
      rcases hrx with rfl | rfl | rfl <;> rfl
    rw [hnextState]
    exact ⟨rfl, h.decode_eq (by decide) (Or.inl ⟨Xlgmii.type_start _, rfl⟩)⟩
  | data h =>
    rw [Xlgmii.encode_data h hstate, Xlgmii.type_data]
    have hnextState : Decoder.nextState rx (Decoder.rTypeOf .dx) next = .d := by
      rcases hrx with rfl
      rfl
    rw [hnextState]
    exact ⟨rfl, Xlgmii.decode_data h (by decide)⟩
  | terminate j h =>
    have hsent : tx = .t := hstate
    have hidle := notIdle_terminated j fun k => if w.isControl rI k then 0 else w.d (k - 1)
    rw [hsent, h.encode_eq, Xlgmii.type_terminated, hidle]
    have hnextState : Decoder.nextState rx (Decoder.rTypeOf .tx) next = .t := by
      rcases hrx with rfl
      rw [hnext rfl rfl]
      rfl
    rw [hnextState]
    exact ⟨Or.inr (Or.inr rfl), h.decode_eq⟩

end Framed

section Line

variable (e : Encoder) (d : Decoder) (rst : Nat → Bool) (w : Nat → Xlgmii)

/-- The inputs of the encoder. -/
def encoderIn (t : Nat) : EncoderIn := ⟨rst t, w t⟩

/-- The blocks of the encoder. -/
def sentBlock (t : Nat) : Block := (encoderAt e (encoderIn rst w) t).pcsBlockO

/-- The inputs of a decoder that gets the blocks of the encoder. -/
def decoderIn (u : Nat) : DecoderIn :=
  ⟨rst u, sentBlock e rst w u, idleBlockDetected (sentBlock e rst w u)⟩

/-- The words of the decoder. -/
def receivedWord (u : Nat) : Xlgmii := (decoderAt d (decoderIn e rst w) u).xlgmiiRxO

theorem sentBlock_eq (t : Nat) : sentBlock e rst w (t + 7)
    = (w t).encode (encoderAt e (encoderIn rst w) (t + 5)).state :=
  pcsBlockO_eq e (encoderIn rst w) t

/-- What the decoder sees of a block. -/
theorem decoderIn_of_not {t : Nat} (ht : rst (t + 7) = false) :
    (decoderIn e rst w (t + 7)).block = (w t).encode (encoderAt e (encoderIn rst w) (t + 5)).state ∧
    (decoderIn e rst w (t + 7)).idle
      = idleBlockDetected ((w t).encode (encoderAt e (encoderIn rst w) (t + 5)).state) := by
  rw [← sentBlock_eq, DecoderIn.block, DecoderIn.idle, decoderIn, ht]
  exact ⟨rfl, rfl⟩

end Line

/-- A reset of `n` cycles -/
def resetFor (n t : Nat) : Bool := decide (t < n)

section Stream

variable (e : Encoder) (d : Decoder) {w : Nat → Xlgmii} {inFrame : Nat → Bool} {n : Nat}
  (hn : 7 ≤ n) (hframed : ∀ t, Framed (inFrame t) (w t) (inFrame (t + 1)))
  (hquiet : ∀ t ≤ n, inFrame t = false)

include hn hframed hquiet

theorem tx_fits (t : Nat) (ht : n ≤ t + 4) :
    (encoderAt e (encoderIn (resetFor n) w) (t + 4)).state.Fits (inFrame t) := by
  induction t with
  | zero => omega
  | succ t ih =>
    by_cases hlast : n = t + 5
    · have hreset := state_of_rst e (encoderIn (resetFor n) w) (t + 4) (decide_eq_true (by omega))
      rw [hquiet (t + 1) (by omega), show t + 1 + 4 = t + 4 + 1 by omega, hreset]
      exact Or.inl rfl
    · have hnext := encoderState_succ e (encoderIn (resetFor n) w) t (decide_eq_false (by omega))
      rw [show t + 1 + 4 = t + 5 by omega, hnext]
      exact ((hframed t).tx_step (ih (by omega))).1

/-- Each block comes from the half of the encoder that it should. -/
theorem tx_sent (t : Nat) :
    (w t).SentIn (encoderAt e (encoderIn (resetFor n) w) (t + 5)).state := by
  by_cases hreset : n ≤ t + 4
  · rw [encoderState_succ e (encoderIn (resetFor n) w) t (decide_eq_false (by omega))]
    exact ((hframed t).tx_step (tx_fits e hn hframed hquiet t hreset)).2
  · rw [state_of_rst e (encoderIn (resetFor n) w) (t + 4) (decide_eq_true (by omega))]
    have hgap := hframed t
    rw [hquiet t (by omega), hquiet (t + 1) (by omega)] at hgap
    exact hgap.tx_reset

/-- Behind the end of a frame the decoder sees a start or a control block. -/
theorem next_isSOrC {t : Nat} (ht : n ≤ t + 7) (hend : inFrame t = false) :
    Decoder.isSOrC (decoderIn e (resetFor n) w (t + 7)).block.blockType = true := by
  have hgap := hframed t
  rw [hend] at hgap
  rw [(decoderIn_of_not e (resetFor n) w (decide_eq_false (by omega))).1]
  exact hgap.isSOrC_eq (tx_sent e hn hframed hquiet t)

theorem rx_fits (u : Nat) (hu : n ≤ u + 3) :
    (decoderAt d.powerUp (decoderIn e (resetFor n) w) (u + 3)).state.Fits (inFrame (u - 7)) := by
  induction u with
  | zero => omega
  | succ u ih =>
    by_cases hlast : n = u + 4
    · have hreset := rxState_of_rst d.powerUp (decoderIn e (resetFor n) w) (u + 3)
        (decide_eq_true (by omega))
      rw [hquiet _ (by omega), show u + 1 + 3 = u + 3 + 1 by omega, hreset]
      exact Or.inl rfl
    · have hprev := ih (by omega)
      have hnext :=
        rxState_succ d.powerUp (decoderIn e (resetFor n) w) u (decide_eq_false (by omega))
      rw [show u + 1 + 3 = u + 4 by omega, hnext]
      by_cases hreset : u < n
      · -- the block is that of the reset
        have hblock : (decoderIn e (resetFor n) w u).block = lblockT :=
          if_pos (decide_eq_true hreset)
        have htype : lblockT.blockType = .o0 := by decide
        rw [hquiet _ (by omega)] at hprev ⊢
        rw [hblock, htype]
        rcases hprev with hstate | hstate | hstate <;> rw [hstate] <;> exact Or.inr (Or.inl rfl)
      · obtain ⟨t, rfl⟩ : ∃ t, u = t + 7 := ⟨u - 7, by omega⟩
        rw [show t + 7 - 7 = t by omega] at hprev
        rw [show t + 7 + 1 - 7 = t + 1 by omega,
          (decoderIn_of_not e (resetFor n) w (decide_eq_false (by omega))).1]
        refine ((hframed t).rx_step (tx_sent e hn hframed hquiet t) hprev ?_).1
        intro _ hend
        rw [show t + 7 + 1 = t + 1 + 7 by omega]
        exact next_isSOrC e hn hframed hquiet (by omega) hend

/-- **The decoder gives the words back, thirteen cycles later.** -/
theorem decoder_reproduces (t : Nat) (ht : n ≤ t) :
    receivedWord e d.powerUp (resetFor n) w (t + 13) = w t := by
  have hword := xlgmiiRxO_eq d (decoderIn e (resetFor n) w) (t + 7) (decide_eq_false (by omega))
  have hnext :=
    rxState_succ d.powerUp (decoderIn e (resetFor n) w) (t + 7) (decide_eq_false (by omega))
  have hprev := rx_fits e d hn hframed hquiet (t + 7) (by omega)
  have hin := decoderIn_of_not e (resetFor n) w (decide_eq_false (show ¬t + 7 < n by omega))
  rw [show t + 7 - 7 = t by omega] at hprev
  rw [receivedWord, show t + 13 = t + 7 + 6 by omega, hword, hnext, hin.1, hin.2]
  refine ((hframed t).rx_step (tx_sent e hn hframed hquiet t) hprev ?_).2
  intro _ hend
  rw [show t + 7 + 1 = t + 1 + 7 by omega]
  exact next_isSOrC e hn hframed hquiet (by omega) hend

end Stream

/-- Idle words, and a frame of a start, a data and a terminate word. -/
def oneFrame (t : Nat) : Xlgmii :=
  if t = 8 then ⟨fun k => k == 0, fun k => if k = 0 then rS else 0x55⟩
  else if t = 9 then ⟨fun _ => false, fun k => BitVec.ofNat 8 k⟩
  else if t = 10 then ⟨fun k => decide (3 ≤ k), fun k => if k = 3 then rT else rI⟩
  else iblockR

/-- Idle words, and two frames with an ordered set between them: one of a start, a data and a
terminate word, and one of a start, two data and a terminate word. -/
def twoFrames (t : Nat) : Xlgmii :=
  if t = 11 then ⟨fun k => k == 0, fun k => if k = 0 then rO else BitVec.ofNat 8 k⟩
  else if t = 12 then ⟨fun k => k == 0, fun k => if k = 0 then rS else 0x55⟩
  else if t = 13 ∨ t = 14 then ⟨fun _ => false, fun k => BitVec.ofNat 8 (t + k)⟩
  else if t = 15 then ⟨fun _ => true, fun k => if k = 0 then rT else rI⟩
  else oneFrame t

/-- The words of `twoFrames` that are in a frame, behind its start -/
def inTwoFrames (t : Nat) : Bool := decide (t ∈ [9, 10, 13, 14, 15])

theorem twoFrames_framed (t : Nat) :
    Framed (inTwoFrames t) (twoFrames t) (inTwoFrames (t + 1)) := by
  by_cases ht : 8 ≤ t ∧ t ≤ 15
  · have hcases : t = 8 ∨ t = 9 ∨ t = 10 ∨ t = 11 ∨ t = 12 ∨ t = 13 ∨ t = 14 ∨ t = 15 := by omega
    rcases hcases with rfl | rfl | rfl | rfl | rfl | rfl | rfl | rfl
    · exact .start ⟨fun _ => rfl, rfl⟩
    · exact .data fun _ => rfl
    · exact .terminate 3 ⟨by decide, by decide, rfl, by decide⟩
    · exact .ordered ⟨fun _ => rfl, rfl⟩
    · exact .start ⟨fun _ => rfl, rfl⟩
    · exact .data fun _ => rfl
    · exact .data fun _ => rfl
    · exact .terminate 0 ⟨by decide, by decide, rfl, by decide⟩
  · have hidle : twoFrames t = iblockR := by
      rw [twoFrames, if_neg (by omega), if_neg (by omega), if_neg (by omega), if_neg (by omega),
        oneFrame, if_neg (by omega), if_neg (by omega), if_neg (by omega)]
    have hnot : ∀ u, u = t ∨ u = t + 1 → inTwoFrames u = false := by
      intro u hu
      simp only [inTwoFrames, List.mem_cons, List.not_mem_nil, or_false, decide_eq_false_iff_not]
      omega
    rw [hidle, hnot t (.inl rfl), hnot (t + 1) (.inr rfl)]
    exact .idle

theorem decoder_reproduces_twoFrames :
    ((List.range 12).map fun t =>
      receivedWord default (default : Decoder).powerUp (resetFor 7) twoFrames (7 + t + 13))
      = (List.range 12).map fun t => twoFrames (7 + t) :=
  List.map_congr_left fun t _ => decoder_reproduces default default (Nat.le_refl 7)
    twoFrames_framed (fun _ ht => decide_eq_false (by simp; omega)) (7 + t) (by omega)

/-! ## Errors -/

section Error

variable (e : Encoder) (d : Decoder) (w : Nat → Xlgmii) (t : Nat)

/-- No reset -/
def noReset (_ : Nat) : Bool := false

/-- The error block is a control block like that of an idle word. -/
theorem eblockT_type : eblockT.blockType = .ix := by decide

/-- If the error block is not taken for an error, its second byte comes first. -/
theorem first_of_eblockT (i : Nat → DecoderIn) (u : Nat) (hblock : (i u).block = eblockT)
    (hidle : (i u).idle = false) : (decoderAt d i (u + 5)).rxRawD1.d 0 = 0x1E := by
  have htype := rxCodedD1Type_eq d i u
  rw [hblock, eblockT_type] at htype
  show (if (decoderAt d i (u + 2)).rxCodedD1Type == .ix
    then ⟨fun _ => true, (decoderAt d i (u + 4)).rxRawT.d⟩ else (_ : Xlgmii)).d 0 = _
  rw [htype]
  show (decoderAt d i (u + 4)).rxRawT.d 0 = _
  rw [rxRawT_d_of_ne d i u (by decide), hblock, hidle]
  decide

/-- **The error block is delivered as an error if and only if the decoder is within a frame.** -/
theorem error_delivered_iff (hreplaced : (encoderAt e (encoderIn noReset w) (t + 5)).state = .e) :
    sentBlock e noReset w (t + 7) = eblockT ∧
      (receivedWord e d noReset w (t + 13) = eblockR ↔
        (decoderAt d (decoderIn e noReset w) (t + 10)).state = .d) := by
  have hencode : (w t).encode (encoderAt e (encoderIn noReset w) (t + 5)).state = eblockT := by
    rw [Xlgmii.encode, if_pos hreplaced]
  have hin := decoderIn_of_not e noReset w (show noReset (t + 7) = false from rfl)
  have hnext := rxState_succ d (decoderIn e noReset w) (t + 7) rfl
  have hword := xlgmiiRxO_cases d (decoderIn e noReset w) (t + 7) rfl
  rw [hencode] at hin
  rw [hin.1, eblockT_type] at hnext
  have hfirst := first_of_eblockT d (decoderIn e noReset w) (t + 7) hin.1 (hin.2.trans (by decide))
  refine ⟨(sentBlock_eq e noReset w t).trans hencode, ?_⟩
  rw [receivedWord, show t + 13 = t + 7 + 6 by omega, hword, hnext]
  constructor
  · intro hdelivered
    cases hstate : (decoderAt d (decoderIn e noReset w) (t + 7 + 3)).state with
    | d => rfl
    | init | c | t | e =>
      rw [hstate] at hdelivered
      have hne : (decoderAt d (decoderIn e noReset w) (t + 7 + 5)).rxRawD1 = eblockR := hdelivered
      rw [hne] at hfirst
      exact absurd hfirst (by decide)
  · intro hstate
    rw [show t + 7 + 3 = t + 10 by omega, hstate]
    rfl

end Error

/-- Idle words, and a frame with an error in it -/
def errorInFrame (t : Nat) : Xlgmii := if t = 10 then eblockR else oneFrame t

theorem error_delivered_iff_inFrame :
    sentBlock default noReset errorInFrame 17 = eblockT ∧
      (receivedWord default default noReset errorInFrame 23 = eblockR ↔
        (decoderAt default (decoderIn default noReset errorInFrame) 20).state = .d) :=
  error_delivered_iff default default errorInFrame 10 (by decide +kernel)

/-- Idle words with an error between them -/
def errorInGap (t : Nat) : Xlgmii := if t = 8 then eblockR else iblockR

/-- Between frames the error is delivered as a control character and seven idle characters. -/
theorem errorInGap_not_delivered :
    (encoderAt default (encoderIn (resetFor 7) errorInGap) 13).state = .e ∧
    sentBlock default (resetFor 7) errorInGap 15 = eblockT ∧
    (receivedWord default (default : Decoder).powerUp (resetFor 7) errorInGap 21).d 0 = 0x1E ∧
    receivedWord default (default : Decoder).powerUp (resetFor 7) errorInGap 21 ≠ eblockR := by
  have hfirst :
      (receivedWord default (default : Decoder).powerUp (resetFor 7) errorInGap 21).d 0 = 0x1E := by
    decide +kernel
  refine ⟨by decide +kernel, by decide +kernel, hfirst, ?_⟩
  intro h
  rw [h] at hfirst
  exact absurd hfirst (by decide)

end MlibDevel.FortyGbe
