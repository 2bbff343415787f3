import MlibDevel.FortyGbe.MacLanes

/-!
# The frames that the MAC sends

From the third word of a frame on the MAC is in one state until the frame ends.  What it has sent
then and what is in its registers makes up the frame so far, and the check is ahead of what was sent
by one word (`MacTx.Sending`).
-/

namespace MlibDevel.FortyGbe

open Lib

/-! ## What is given to the MAC -/

/-- A word with `n` valid bytes -/
structure Carries (i : MacTxIn) (n : Nat) (bytes : List (BitVec 8)) : Prop where
  run : i.macRst = false
  valid : i.macTxDataValid = BitVec.ofNat 32 (2 ^ n - 1)
  bytes : (bytesOf i.macTxData).take n = bytes

/-- The rest of a frame, from its third word on.  The MAC needs a cycle for the end, or two if the
last word has at least 16 bytes; behind more than 16 bytes nothing is valid. -/
inductive Rest : List (BitVec 8) → List MacTxIn → Prop
  | word {i : MacTxIn} {bytes rest : List (BitVec 8)} {is : List MacTxIn} (h : Carries i 32 bytes)
      (hrest : Rest rest is) : Rest (bytes ++ rest) (i :: is)
  | short {i j : MacTxIn} {n : Nat} {bytes : List (BitVec 8)} (hn : n ∈ [0, 2, 8, 10])
      (h : Carries i n bytes) (hj : j.macRst = false) : Rest bytes [i, j]
  | long {i j k : MacTxIn} {n : Nat} {bytes : List (BitVec 8)} (hn : n ∈ [16, 18, 24, 26])
      (h : Carries i n bytes) (hj : j.macRst = false) (hk : k.macRst = false)
      (hvalid : 16 < n → j.macTxDataValid = 0) : Rest bytes [i, j, k]

/-- The frames that are given to the MAC in some cycles: two whole words, any number of whole words
behind them, and a word with 0, 2, 8, 10, 16, 18, 24 or 26 bytes, for which the MAC has ends.  So a
frame has `64 + 32 * k + n` bytes, where `n` is one of these numbers. -/
inductive Fed : List (List (BitVec 8)) → List MacTxIn → Prop
  | nil : Fed [] []
  | wait {i : MacTxIn} {frames : List (List (BitVec 8))} {is : List MacTxIn}
      (h : i.macRst = true ∨ i.macTxStart = false) (hfed : Fed frames is) : Fed frames (i :: is)
  | frame {i j k : MacTxIn} {first second rest : List (BitVec 8)} {is js : List MacTxIn}
      {frames : List (List (BitVec 8))} (hrun : i.macRst = false) (hstart : i.macTxStart = true)
      (hj : Carries j 32 first) (hk : Carries k 32 second) (hrest : Rest rest is)
      (hfed : Fed frames js) :
      Fed ((first ++ second ++ rest) :: frames) (i :: j :: k :: (is ++ js))

/-- Frames on the XLGMII, with idle lanes between them -/
inductive OnWire : List (List (BitVec 8)) → List Lane → Prop
  | nil : OnWire [] []
  | idle {frames : List (List (BitVec 8))} {lanes : List Lane} (h : OnWire frames lanes) :
      OnWire frames ((true, cIdleByte) :: lanes)
  | frame {payload : List (BitVec 8)} {frames : List (List (BitVec 8))} {lanes : List Lane}
      (h : OnWire frames lanes) :
      OnWire (payload :: frames) (wireLanes payload (frameCheck payload) ++ lanes)

theorem OnWire.idles {frames : List (List (BitVec 8))} {lanes : List Lane}
    (h : OnWire frames lanes) : ∀ n : Nat, OnWire frames (idleLanes n ++ lanes)
  | 0 => h
  | n + 1 => (h.idles n).idle

/-! ## The check -/

namespace TxCrc

/-- How many bytes are taken, by the bits of `data_in_val` that are looked at -/
def taken (dataInVal : BitVec 32) : Nat :=
  if dataInVal.getLsbD 31 then 32
  else if dataInVal.getLsbD 25 then 26
  else if dataInVal.getLsbD 23 then 24
  else if dataInVal.getLsbD 17 then 18
  else if dataInVal.getLsbD 15 then 16
  else if dataInVal.getLsbD 9 then 10
  else if dataInVal.getLsbD 7 then 8
  else 2

/-- One of the modules takes the first bytes of a word. -/
theorem took_edge (s : TxCrc) {crcReset : Bool} {crcInit : BitVec 32} {dataIn : Fin 32 → BitVec 8}
    {dataInVal : BitVec 32} {before bytes : List (BitVec 8)}
    (h : Took (if crcReset then crcInit else s.crcOutInt) before)
    (hbytes : (bytesOf dataIn).take (taken dataInVal) = bytes) :
    Took (s.edge crcReset crcInit dataIn dataInVal).crcOutInt (before ++ bytes) := by
  rw [crcOutInt, edge, ← hbytes, taken]
  dsimp only
  generalize (if crcReset then crcInit else s.crcOutInt) = crcIn at h ⊢
  split_ifs
  · rw [crc256]
    exact h.more crc256Rows_eq
      (by rw [bitsOf_dataInBitSwapped_all, List.take_of_length_le (by simp)])
  · rw [crc208]
    exact h.more crc208Rows_eq (bitsOf_dataInBitSwapped_take dataIn (k := 26) rfl rfl)
  · rw [crc192]
    exact h.more crc192Rows_eq (bitsOf_dataInBitSwapped_take dataIn (k := 24) rfl rfl)
  · rw [crc144]
    exact h.more crc144Rows_eq (bitsOf_dataInBitSwapped_take dataIn (k := 18) rfl rfl)
  · rw [crc128]
    exact h.more crc128Rows_eq (bitsOf_dataInBitSwapped_take dataIn (k := 16) rfl rfl)
  · rw [crc80]
    exact h.more crc80Rows_eq (bitsOf_dataInBitSwapped_take dataIn (k := 10) rfl rfl)
  · rw [crc64]
    exact h.more crc64Rows_eq (bitsOf_dataInBitSwapped_take dataIn (k := 8) rfl rfl)
  · rw [crc16]
    exact h.more crc16Rows_eq (bitsOf_dataInBitSwapped_take dataIn (k := 2) rfl rfl)

theorem crcOut_eq {s : TxCrc} {bytes : List (BitVec 8)} (h : Took s.crcOutInt bytes) :
    s.crcOut = frameCheck bytes :=
  h.crcOutOf_eq

/-- The register is reset and takes the first bytes. -/
theorem took_reset (s : TxCrc) {dataIn : Fin 32 → BitVec 8} {dataInVal : BitVec 32}
    {bytes : List (BitVec 8)} (hbytes : (bytesOf dataIn).take (taken dataInVal) = bytes) :
    Took (s.edge true (BitVec.allOnes 32) dataIn dataInVal).crcOutInt bytes :=
  @took_edge s true _ _ _ [] _ took_nil hbytes

/-- The register takes more bytes. -/
theorem took_more {s : TxCrc} {before : List (BitVec 8)} (h : Took s.crcOutInt before)
    (crcInit : BitVec 32) {dataIn : Fin 32 → BitVec 8} {dataInVal : BitVec 32}
    {bytes : List (BitVec 8)} (hbytes : (bytesOf dataIn).take (taken dataInVal) = bytes) :
    Took (s.edge false crcInit dataIn dataInVal).crcOutInt (before ++ bytes) := s.took_edge h hbytes

end TxCrc

/-! ## The state machine -/

namespace MacTx

/-- The lanes that are sent in some cycles -/
def sentLanes (s : MacTx) (is : List MacTxIn) : List Lane :=
  (outputs edge (fun s i => [(edge s i).xlgmiiTx]) s is).flatMap lanesOf

theorem sentLanes_cons (s : MacTx) (i : MacTxIn) (is : List MacTxIn) :
    sentLanes s (i :: is) = lanesOf s.xlgmiiTxI ++ sentLanes (edge s i) is := rfl

theorem sentLanes_append (s : MacTx) (is js : List MacTxIn) :
    sentLanes s (is ++ js) = sentLanes s is ++ sentLanes (is.foldl edge s) js := by
  rw [sentLanes, outputs_append, List.flatMap_append]
  rfl

/-- What has been given to the MAC and is not sent yet -/
def pending (s : MacTx) : List (BitVec 8) :=
  (bytesOf s.macTxDataZ2).drop 16 ++ bytesOf s.macTxDataZ1

theorem pending_take (s : MacTx) :
    s.pending.take 32 = (bytesOf s.macTxDataZ2).drop 16 ++ (bytesOf s.macTxDataZ1).take 16 := by
  rw [pending, List.take_append, List.length_drop, length_bytesOf, List.take_of_length_le (by simp)]

theorem pending_drop (s : MacTx) : s.pending.drop 32 = (bytesOf s.macTxDataZ1).drop 16 := by
  rw [pending, List.drop_append, List.length_drop, length_bytesOf, List.drop_of_length_le (by simp),
    List.nil_append]

/-- The data of whole words -/
theorem lanesOf_payload (s : MacTx) : lanesOf s.payload = dataLanes (s.pending.take 32) := by
  have hlen : ((bytesOf s.macTxDataZ2).drop 16 ++ (bytesOf s.macTxDataZ1).take 16).length = 32 := by
    simp
  have h := @lanesOf_macWord ((bytesOf s.macTxDataZ2).drop 16 ++ (bytesOf s.macTxDataZ1).take 16)
    [] (by simp)
  rw [hlen, List.append_nil] at h
  rw [payload, h, pending_take]
  simp [controlLanes, idleLanes]

/-- The word at the start of a frame: nine control bytes, and data bytes -/
theorem lanesOf_preamble (s : MacTx) :
    lanesOf s.preamble = idleLanes 8 ++ controlLanes [cStartByte]
      ++ dataLanes [0x55, 0x55, 0x55, 0x55, 0x55, 0x55, 0xD5]
      ++ dataLanes ((bytesOf s.macTxDataZ1).take 16) := by
  have hcontrol : ∀ l l' : List (BitVec 8), l.length = 9 → l'.length = 23 →
      lanesOf ⟨fun i => (l ++ l').getD i cIdleByte, fun i => decide (i.val < 9)⟩
        = controlLanes l ++ dataLanes l' := by
    intro l l' hl hl'
    apply List.ext_getElem (by simp [controlLanes, dataLanes, hl, hl'])
    intro i h₁ h₂
    rw [length_lanesOf] at h₁
    simp only [lanesOf, List.getElem_ofFn, List.getD_eq_getElem?_getD]
    by_cases hi : i < 9
    · rw [List.getElem_append_left (by simp [controlLanes]; omega),
        List.getElem?_append_left (by omega)]
      simp [controlLanes, hl, hi]
    · rw [List.getElem_append_right (by simp [controlLanes]; omega),
        List.getElem?_append_right (by omega)]
      have hlt : i - 9 < l'.length := by omega
      simp [controlLanes, dataLanes, hl, hlt, hi]
  have h := hcontrol [0x07, 0x07, 0x07, 0x07, 0x07, 0x07, 0x07, 0x07, 0xFB]
    ([0x55, 0x55, 0x55, 0x55, 0x55, 0x55, 0xD5] ++ (bytesOf s.macTxDataZ1).take 16) rfl (by simp)
  rw [dataLanes_append, ← List.append_assoc] at h
  exact h

/-- The word at the end of a frame -/
theorem lanesOf_end {n : Nat} {l : List (BitVec 8)} (crc : BitVec 32) (hlen : l.length = n)
    (hn : n ≤ 27) :
    lanesOf (macWord (n + 4) (l ++ bytes4 crc ++ [cTerminateByte]))
      = dataLanes l ++ dataLanes (bytes4 crc) ++ controlLanes [cTerminateByte]
        ++ idleLanes (27 - n) := by
  have h := @lanesOf_macWord (l ++ bytes4 crc) [cTerminateByte] (by simp [bytes4]; omega)
  have hlen' : (l ++ bytes4 crc).length = n + 4 := by simp [bytes4, hlen]
  have hidle : 32 - (n + 4 + [cTerminateByte].length) = 27 - n := by
    rw [List.length_singleton]
    omega
  rw [hlen', hidle] at h
  rw [h, dataLanes_append]

theorem bytesOf_crcDataIn {s : MacTx} (h : s.currentMacState ≠ .startCrc) (i : MacTxIn) :
    bytesOf (s.crcDataIn i) = s.pending.drop 32 ++ (bytesOf i.macTxData).take 16 := by
  rw [crcDataIn, if_neg h, bytesOf_getD (by simp), pending_drop]
  simp

/-- A frame is being sent: `before` has been sent, and the check is that of one more word. -/
structure Sending (s : MacTx) (before : List (BitVec 8)) : Prop where
  state : s.currentMacState = .genPayload
  valid : s.macTxDataValidZ1 = BitVec.allOnes 32
  crc : Took s.crc.crcOutInt (before ++ s.pending.take 32)

theorem pending_edge (s : MacTx) (i : MacTxIn) :
    (edge s i).pending = s.pending.drop 32 ++ bytesOf i.macTxData := by
  rw [pending_drop]
  rfl

/-- The check is brought forward. -/
theorem Sending.crc_edge {s : MacTx} {before : List (BitVec 8)} (h : s.Sending before)
    {i : MacTxIn} {m : Nat} (hm : m ≤ 16)
    (htaken : TxCrc.taken
      (i.macTxDataValid.extractLsb' 0 16 ++ (BitVec.allOnes 32).extractLsb' 16 16) = 16 + m) :
    Took (edge s i).crc.crcOutInt (before ++ s.pending ++ (bytesOf i.macTxData).take m) := by
  have hstate : s.currentMacState ≠ .startCrc := by rw [h.state]; decide
  have hbytes : (bytesOf (s.crcDataIn i)).take (TxCrc.taken (s.crcDataInVal i))
      = s.pending.drop 32 ++ (bytesOf i.macTxData).take m := by
    rw [crcDataInVal, if_neg hstate, h.valid, htaken, bytesOf_crcDataIn hstate, List.take_append,
      pending_drop, List.length_drop, length_bytesOf, List.take_of_length_le (by simp),
      List.take_take]
    congr 2
    omega
  have hmore := TxCrc.took_more h.crc (BitVec.allOnes 32) hbytes
  rw [List.append_assoc, ← List.append_assoc (s.pending.take 32), List.take_append_drop,
    ← List.append_assoc] at hmore
  rw [edge, h.state]
  exact hmore

/-- A whole word -/
theorem Sending.word {s : MacTx} {before : List (BitVec 8)} (h : s.Sending before) {i : MacTxIn}
    {bytes : List (BitVec 8)} (hi : Carries i 32 bytes) :
    (edge s i).Sending (before ++ s.pending.take 32)
      ∧ (edge s i).pending = s.pending.drop 32 ++ bytes := by
  have hvalid : i.macTxDataValid = BitVec.allOnes 32 := hi.valid
  have hbytes : bytesOf i.macTxData = bytes := by
    rw [← hi.bytes, List.take_of_length_le (by simp)]
  have hpending := pending_edge s i
  rw [hbytes] at hpending
  refine ⟨⟨?_, hvalid, ?_⟩, hpending⟩
  · rw [edge, hi.run, nextMacState, h.state, hvalid]
    rfl
  · have hcrc := h.crc_edge (i := i) (m := 16) (Nat.le_refl _) (by rw [hvalid]; decide)
    have hlen : (s.pending.drop 32).length = 16 := by simp [pending_drop]
    have htake : (s.pending.drop 32 ++ bytes).take 32 = s.pending.drop 32 ++ bytes.take 16 := by
      rw [List.take_append, hlen, List.take_of_length_le (by omega)]
    rw [hpending, htake, ← List.append_assoc, List.append_assoc before, List.take_append_drop,
      ← hbytes]
    exact hcrc

/-- The state behind the last word of a frame, if that has `n` bytes -/
def endState (n : Nat) : MacTxState :=
  if n = 0 then .genEndAligned0
  else if n = 2 then .genEndAligned16
  else if n = 8 then .genEndAligned64
  else if n = 10 then .genEndAligned80
  else if n = 16 then .genEndAligned128Part1
  else if n = 18 then .genEndAligned144Part1
  else if n = 24 then .genEndAligned192Part1
  else .genEndAligned208Part1

/-- The last word of a frame -/
theorem Sending.last {s : MacTx} {before : List (BitVec 8)} (h : s.Sending before) {i : MacTxIn}
    {n : Nat} {bytes : List (BitVec 8)} (hn : n ∈ [0, 2, 8, 10, 16, 18, 24, 26])
    (hi : Carries i n bytes) :
    (edge s i).currentMacState = endState n
      ∧ Took (edge s i).crc.crcOutInt (before ++ s.pending ++ bytes.take 16) := by
  have hstate : ∀ n ∈ [0, 2, 8, 10, 16, 18, 24, 26], ∀ s : MacTx, s.currentMacState = .genPayload →
      ∀ i : MacTxIn, i.macTxDataValid = BitVec.ofNat 32 (2 ^ n - 1) →
        s.nextMacState i = endState n := by
    intro n hn s hs i hi
    simp only [List.mem_cons, List.not_mem_nil, or_false] at hn
    rcases hn with rfl | rfl | rfl | rfl | rfl | rfl | rfl | rfl
      <;> (rw [nextMacState, hs, hi]; rfl)
  have htaken : ∀ n ∈ [0, 2, 8, 10, 16, 18, 24, 26],
      TxCrc.taken ((BitVec.ofNat 32 (2 ^ n - 1)).extractLsb' 0 16
        ++ (BitVec.allOnes 32).extractLsb' 16 16) = 16 + min 16 n := by decide
  constructor
  · rw [edge, hi.run]
    exact hstate n hn s h.state i hi.valid
  · have hcrc := h.crc_edge (i := i) (Nat.min_le_left 16 n) (by rw [hi.valid, htaken n hn])
    rwa [← hi.bytes, List.take_take]

/-- The second state of a long end -/
def endPart2 (n : Nat) : MacTxState :=
  if n = 16 then .genEndAligned128Part2
  else if n = 18 then .genEndAligned144Part2
  else if n = 24 then .genEndAligned192Part2
  else .genEndAligned208Part2

/-- The word of a short end -/
theorem short_end {s : MacTx} {n : Nat} (hn : n ∈ [0, 2, 8, 10])
    (h : s.currentMacState = endState n) (i : MacTxIn) :
    s.xlgmiiTxI = s.endAligned n ∧ s.nextMacState i = .idle := by
  simp only [List.mem_cons, List.not_mem_nil, or_false] at hn
  rcases hn with rfl | rfl | rfl | rfl <;> (rw [xlgmiiTxI, nextMacState, h]; exact ⟨rfl, rfl⟩)

/-- The first word of a long end -/
theorem long_end_part1 {s : MacTx} {n : Nat} (hn : n ∈ [16, 18, 24, 26])
    (h : s.currentMacState = endState n) (i : MacTxIn) :
    s.xlgmiiTxI = s.payload ∧ s.nextMacState i = endPart2 n := by
  simp only [List.mem_cons, List.not_mem_nil, or_false] at hn
  rcases hn with rfl | rfl | rfl | rfl <;> (rw [xlgmiiTxI, nextMacState, h]; exact ⟨rfl, rfl⟩)

/-- The second word of a long end -/
theorem long_end_part2 {s : MacTx} {n : Nat} (hn : n ∈ [16, 18, 24, 26])
    (h : s.currentMacState = endPart2 n) (i : MacTxIn) :
    s.xlgmiiTxI = s.endAlignedPart2 (n - 16) (if n = 16 then s.crcOutZ1 else s.crc.crcOut)
      ∧ s.nextMacState i = .idle := by
  simp only [List.mem_cons, List.not_mem_nil, or_false] at hn
  rcases hn with rfl | rfl | rfl | rfl <;> (rw [xlgmiiTxI, nextMacState, h]; exact ⟨rfl, rfl⟩)

/-- The check of the bytes of a long end -/
theorem Sending.long_crc {s : MacTx} {before : List (BitVec 8)} (h : s.Sending before)
    {i j : MacTxIn} {n : Nat} {bytes : List (BitVec 8)} (hn : n ∈ [16, 18, 24, 26])
    (hi : Carries i n bytes) (hvalid : 16 < n → j.macTxDataValid = 0) :
    (if n = 16 then (edge (edge s i) j).crcOutZ1 else (edge (edge s i) j).crc.crcOut)
      = frameCheck (before ++ s.pending ++ bytes) := by
  obtain ⟨hstate, hcrc⟩ := h.last (List.mem_of_mem_drop (i := 4) hn) hi
  by_cases hn16 : n = 16
  · subst hn16
    rw [if_pos rfl]
    have hall : bytes.take 16 = bytes := by rw [← hi.bytes, List.take_take]; rfl
    rw [hall] at hcrc
    exact TxCrc.crcOut_eq hcrc
  · rw [if_neg hn16]
    apply TxCrc.crcOut_eq
    have hn' : 16 < n ∧ n ≤ 32 := by
      simp only [List.mem_cons, List.not_mem_nil, or_false] at hn
      omega
    have hne : (edge s i).currentMacState ≠ .startCrc := by
      rw [hstate, endState]
      split_ifs <;> decide
    have hval : (edge s i).crcDataInVal j = (0 : BitVec 32).extractLsb' 0 16
        ++ (BitVec.ofNat 32 (2 ^ n - 1)).extractLsb' 16 16 := by
      rw [crcDataInVal, if_neg hne, hvalid hn'.1, ← hi.valid]
      rfl
    have htaken : TxCrc.taken ((0 : BitVec 32).extractLsb' 0 16
        ++ (BitVec.ofNat 32 (2 ^ n - 1)).extractLsb' 16 16) = n - 16 := by
      clear hi hvalid hstate hcrc hn' hne hval
      revert n
      decide
    have hbytes : (bytesOf ((edge s i).crcDataIn j)).take (TxCrc.taken ((edge s i).crcDataInVal j))
        = bytes.drop 16 := by
      rw [bytesOf_crcDataIn hne, hval, htaken, pending_drop,
        List.take_append_of_le_length (by simp; omega), ← hi.bytes, List.drop_take]
      rfl
    have hmore := TxCrc.took_more hcrc (BitVec.allOnes 32) hbytes
    rw [List.append_assoc, List.take_append_drop] at hmore
    rw [edge,
      show ((edge s i).currentMacState == MacTxState.startCrc) = false from beq_false_of_ne hne]
    exact hmore

/-- **The rest of a frame** is sent with the check of the whole frame and an end behind it. -/
theorem Sending.rest_sent {s : MacTx} {before rest : List (BitVec 8)} {is : List MacTxIn}
    (h : s.Sending before) (hrest : Rest rest is) :
    ∃ gap : Nat, s.sentLanes is = dataLanes (s.pending ++ rest)
        ++ dataLanes (bytes4 (frameCheck (before ++ s.pending ++ rest)))
        ++ controlLanes [cTerminateByte] ++ idleLanes gap
      ∧ gap ≤ 27 ∧ (is.foldl edge s).currentMacState = .idle := by
  induction hrest generalizing s before with
  | @word i bytes rest is hi hrest ih =>
    obtain ⟨hnext, hpending⟩ := h.word hi
    obtain ⟨gap, hsent, hgap⟩ := ih hnext
    refine ⟨gap, ?_, hgap⟩
    have hall : s.pending.take 32 ++ (s.pending.drop 32 ++ bytes) = s.pending ++ bytes := by
      rw [← List.append_assoc, List.take_append_drop]
    rw [sentLanes_cons, hsent, hpending, List.append_assoc before, hall, xlgmiiTxI, h.state]
    dsimp only
    rw [lanesOf_payload, ← List.append_assoc, ← List.append_assoc, ← List.append_assoc,
      ← dataLanes_append, ← List.append_assoc (s.pending.take 32), hall]
    simp only [List.append_assoc]
  | @short i j n bytes hn hi hj =>
    obtain ⟨hstate, hcrc⟩ :=
      h.last (by simp only [List.mem_cons, List.not_mem_nil, or_false] at hn ⊢; omega) hi
    have hnle : n ≤ 10 := by
      simp only [List.mem_cons, List.not_mem_nil, or_false] at hn
      omega
    obtain ⟨hword, hnext⟩ := short_end hn hstate j
    have hlen : bytes.length = n := by rw [← hi.bytes, List.length_take, length_bytesOf]; omega
    refine ⟨27 - (16 + n), ?_, by omega, ?_⟩
    · rw [List.take_of_length_le (by omega)] at hcrc
      have hend := lanesOf_end (n := 16 + n) (l := s.pending.drop 32 ++ bytes)
        (frameCheck (before ++ s.pending ++ bytes)) (by simp [pending_drop, hlen]) (by omega)
      have hemit : (edge s i).endAligned n = macWord (16 + n + 4) (s.pending.drop 32 ++ bytes
          ++ bytes4 (frameCheck (before ++ s.pending ++ bytes)) ++ [cTerminateByte]) := by
        rw [endAligned, TxCrc.crcOut_eq hcrc, pending_drop, ← hi.bytes]
        rfl
      rw [sentLanes_cons, sentLanes_cons, hword, hemit, hend, xlgmiiTxI, h.state]
      dsimp only
      rw [lanesOf_payload]
      show _ ++ (_ ++ []) = _
      rw [List.append_nil]
      simp only [← List.append_assoc, ← dataLanes_append, List.take_append_drop]
    · show (edge (edge s i) j).currentMacState = _
      rw [edge, hj]
      exact hnext
  | @long i j k n bytes hn hi hj hk hvalid =>
    obtain ⟨hstate, -⟩ := h.last (List.mem_of_mem_drop (i := 4) hn) hi
    have hn' : 16 ≤ n ∧ n ≤ 26 := by
      simp only [List.mem_cons, List.not_mem_nil, or_false] at hn
      omega
    obtain ⟨hword, hnext⟩ := long_end_part1 hn hstate j
    have hstate2 : (edge (edge s i) j).currentMacState = endPart2 n := by
      rw [edge, hj]
      exact hnext
    obtain ⟨hword2, hnext2⟩ := long_end_part2 hn hstate2 k
    have hlen : bytes.length = n := by rw [← hi.bytes, List.length_take, length_bytesOf]; omega
    refine ⟨27 - (n - 16), ?_, by omega, ?_⟩
    · have hpart1 : (edge s i).pending.take 32 = s.pending.drop 32 ++ bytes.take 16 := by
        rw [pending_edge, List.take_append, pending_drop, List.length_drop, length_bytesOf,
          List.take_of_length_le (by simp), ← hi.bytes, List.take_take]
        congr 2
        omega
      have hpart2 :
          (edge (edge s i) j).endAlignedPart2 (n - 16) (frameCheck (before ++ s.pending ++ bytes))
          = macWord (n - 16 + 4) (bytes.drop 16
            ++ bytes4 (frameCheck (before ++ s.pending ++ bytes)) ++ [cTerminateByte]) := by
        rw [endAlignedPart2, ← hi.bytes, List.drop_take]
        rfl
      have hend := lanesOf_end (n := n - 16) (l := bytes.drop 16)
        (frameCheck (before ++ s.pending ++ bytes)) (by rw [List.length_drop, hlen]) (by omega)
      rw [sentLanes_cons, sentLanes_cons, sentLanes_cons, hword, hword2, h.long_crc hn hi hvalid,
        hpart2, hend, lanesOf_payload, hpart1, xlgmiiTxI, h.state]
      dsimp only
      rw [lanesOf_payload]
      show _ ++ (_ ++ (_ ++ [])) = _
      rw [List.append_nil]
      simp only [← List.append_assoc, ← dataLanes_append, List.take_append_drop]
      rw [List.append_assoc s.pending, List.take_append_drop]
    · show (edge (edge (edge s i) j) k).currentMacState = _
      rw [edge, hk]
      exact hnext2

/-- A frame is begun. -/
theorem sending_begun {s : MacTx} (h : s.currentMacState = .idle) {i j k : MacTxIn}
    {first second : List (BitVec 8)} (hrun : i.macRst = false) (hstart : i.macTxStart = true)
    (hj : Carries j 32 first) (hk : Carries k 32 second) :
    s.sentLanes [i, j, k] = idleLanes 32 ++ idleLanes 32 ++ idleLanes 8
        ++ controlLanes [cStartByte] ++ dataLanes [0x55, 0x55, 0x55, 0x55, 0x55, 0x55, 0xD5]
        ++ dataLanes (first.take 16)
      ∧ ([i, j, k].foldl edge s).Sending (first.take 16)
      ∧ ([i, j, k].foldl edge s).pending = first.drop 16 ++ second := by
  have hfirst : bytesOf j.macTxData = first := by rw [← hj.bytes, List.take_of_length_le (by simp)]
  have hsecond : bytesOf k.macTxData = second := by
    rw [← hk.bytes, List.take_of_length_le (by simp)]
  have hstate1 : (edge s i).currentMacState = .startCrc := by
    rw [edge, hrun, nextMacState, h, hstart]
    rfl
  have hstate2 : (edge (edge s i) j).currentMacState = .genIfgPreambleStartPayload := by
    rw [edge, hj.run, nextMacState, hstate1]
    rfl
  have hcrc2 : Took (edge (edge s i) j).crc.crcOutInt (first.take 16) := by
    have hbytes : (bytesOf ((edge s i).crcDataIn j)).take (TxCrc.taken ((edge s i).crcDataInVal j))
      = first.take 16 := by
      have htaken : TxCrc.taken 0x0000FFFF = 16 := by decide
      rw [crcDataIn, if_pos hstate1, crcDataInVal, if_pos hstate1, htaken,
        bytesOf_getD (by simp), hfirst, List.take_append_of_le_length (by simp [← hfirst]),
        List.take_take]
      rfl
    have hreset := TxCrc.took_reset (edge s i).crc hbytes
    rw [edge, hstate1]
    exact hreset
  have hpending2 : (edge (edge s i) j).pending.drop 32 = first.drop 16 := by
    rw [pending_drop, ← hfirst]
    rfl
  have hvalid : k.macTxDataValid = BitVec.allOnes 32 := hk.valid
  have hpending3 : (edge (edge (edge s i) j) k).pending = first.drop 16 ++ second := by
    rw [pending_edge, hpending2, hsecond]
  refine ⟨?_, ⟨?_, hvalid, ?_⟩, hpending3⟩
  · have hpreamble := lanesOf_preamble (edge (edge s i) j)
    rw [show bytesOf (edge (edge s i) j).macTxDataZ1 = first from hfirst] at hpreamble
    rw [sentLanes_cons, sentLanes_cons, sentLanes_cons, xlgmiiTxI, h, xlgmiiTxI, hstate1,
      xlgmiiTxI, hstate2]
    dsimp only
    rw [hpreamble, lanesOf_idle]
    show _ ++ (_ ++ (_ ++ [])) = _
    simp only [List.append_nil, List.append_assoc]
  · show (edge (edge (edge s i) j) k).currentMacState = _
    rw [edge, hk.run, nextMacState, hstate2]
    rfl
  · have hbytes :
        (bytesOf ((edge (edge s i) j).crcDataIn k)).take
            (TxCrc.taken ((edge (edge s i) j).crcDataInVal k))
          = first.drop 16 ++ second.take 16 := by
      have hne : (edge (edge s i) j).currentMacState ≠ .startCrc := by rw [hstate2]; decide
      have hval : (edge (edge s i) j).crcDataInVal k = BitVec.allOnes 32 := by
        have hvalid' : (edge (edge s i) j).macTxDataValidZ1 = BitVec.allOnes 32 := hj.valid
        rw [crcDataInVal, if_neg hne, hvalid, hvalid']
        decide
      have htaken : TxCrc.taken (BitVec.allOnes 32) = 32 := by decide
      rw [hval, htaken, bytesOf_crcDataIn hne, hpending2, hsecond, List.take_of_length_le]
      simp [← hfirst]
      omega
    have hpending : (first.drop 16 ++ second).take 32 = first.drop 16 ++ second.take 16 := by
      rw [List.take_append, List.take_of_length_le (by simp [← hfirst])]
      simp [← hfirst]
    have hmore := TxCrc.took_more hcrc2 (BitVec.allOnes 32) hbytes
    show Took (edge (edge (edge s i) j) k).crc.crcOutInt _
    rw [show [i, j, k].foldl edge s = edge (edge (edge s i) j) k from rfl, hpending3, hpending,
      edge, hstate2]
    exact hmore

/-- Nothing is sent while no frame is given to the MAC. -/
theorem waits {s : MacTx} (h : s.currentMacState = .idle) {i : MacTxIn}
    (hi : i.macRst = true ∨ i.macTxStart = false) :
    lanesOf s.xlgmiiTxI = idleLanes 32 ∧ (edge s i).currentMacState = .idle := by
  constructor
  · rw [xlgmiiTxI, h]
    exact lanesOf_idle
  · rw [edge, nextMacState, h]
    rcases hi with hi | hi
    · exact if_pos hi
    · rw [hi]
      exact ite_self _

/-- **A frame is sent** behind a preamble and with its check and an end, from an idle MAC to an idle
MAC. -/
theorem frame_sent {s : MacTx} (h : s.currentMacState = .idle) {i j k : MacTxIn}
    {first second rest : List (BitVec 8)} {is : List MacTxIn} (hrun : i.macRst = false)
    (hstart : i.macTxStart = true) (hj : Carries j 32 first) (hk : Carries k 32 second)
    (hrest : Rest rest is) :
    ∃ gap, s.sentLanes (i :: j :: k :: is) = idleLanes 72
        ++ wireLanes (first ++ second ++ rest) (frameCheck (first ++ second ++ rest))
        ++ idleLanes gap
      ∧ gap ≤ 27 ∧ ((i :: j :: k :: is).foldl edge s).currentMacState = .idle := by
  obtain ⟨hbegun, hsending, hpending⟩ := sending_begun h hrun hstart hj hk
  obtain ⟨gap, hsent, hgap, hidle⟩ := hsending.rest_sent hrest
  refine ⟨gap, ?_, hgap, hidle⟩
  have hall : first.take 16 ++ (first.drop 16 ++ second) ++ rest = first ++ second ++ rest := by
    rw [← List.append_assoc, List.take_append_drop]
  have hdata : dataLanes (first.take 16) ++ dataLanes (first.drop 16 ++ second ++ rest)
      = dataLanes (first ++ second ++ rest) := by
    rw [← dataLanes_append, ← List.append_assoc, hall]
  have hfirst : idleLanes 72 = idleLanes 32 ++ (idleLanes 32 ++ idleLanes 8) := rfl
  rw [show i :: j :: k :: is = [i, j, k] ++ is from rfl, sentLanes_append, hbegun, hsent, hpending,
    hall, wireLanes, ← hdata, hfirst]
  simp only [List.append_assoc]

/-- **Frames are sent one after the other**, and between them nothing but idle bytes. -/
theorem sends_frames {frames : List (List (BitVec 8))} {is : List MacTxIn} (hfed : Fed frames is)
    {s : MacTx} (h : s.currentMacState = .idle) :
    OnWire frames (s.sentLanes is) ∧ (is.foldl edge s).currentMacState = .idle := by
  induction hfed generalizing s with
  | nil => exact ⟨.nil, h⟩
  | @wait i frames is hi hfed ih =>
    obtain ⟨hlanes, hidle⟩ := waits h hi
    obtain ⟨hwire, hlast⟩ := ih hidle
    refine ⟨?_, hlast⟩
    rw [sentLanes_cons, hlanes]
    exact hwire.idles 32
  | @frame i j k first second rest is js frames hrun hstart hj hk hrest hfed ih =>
    obtain ⟨gap, hsent, -, hidle⟩ := frame_sent h hrun hstart hj hk hrest
    obtain ⟨hwire, hlast⟩ := ih hidle
    have happend : i :: j :: k :: (is ++ js) = (i :: j :: k :: is) ++ js := rfl
    constructor
    · rw [happend, sentLanes_append, hsent, List.append_assoc, List.append_assoc]
      exact ((hwire.idles gap).frame).idles 72
    · rw [happend, List.foldl_append]
      exact hlast

/-- The word of 32 zero bytes, of which `n` are valid -/
def zeroWord (start : Bool) (n : Nat) : MacTxIn :=
  ⟨false, fun _ => 0, BitVec.ofNat 32 (2 ^ n - 1), start⟩

/-- A frame of 82 zero bytes, and right behind it one of 106 -/
def zeroFrames : List MacTxIn :=
  [zeroWord false 0, zeroWord true 0, zeroWord false 32, zeroWord false 32, zeroWord false 18,
    zeroWord false 0, zeroWord false 0, zeroWord true 0, zeroWord false 32, zeroWord false 32,
    zeroWord false 32, zeroWord false 10, zeroWord false 0]

theorem fed_zeroFrames : Fed [List.replicate 82 0, List.replicate 106 0] zeroFrames := by
  have hcarries : ∀ n ≤ 32, Carries (zeroWord false n) n (List.replicate n 0) := by
    intro n hn
    refine ⟨rfl, rfl, ?_⟩
    show (bytesOf fun _ => 0).take n = _
    rw [show bytesOf (fun _ => 0) = List.replicate 32 0 from rfl, List.take_replicate,
      Nat.min_eq_left hn]
  have hword := hcarries 32 (by decide)
  have hlong := Rest.long (n := 18) (j := zeroWord false 0) (k := zeroWord false 0) (by decide)
    (hcarries 18 (by decide)) rfl rfl fun _ => rfl
  have hshort := Rest.word hword
    (.short (n := 10) (j := zeroWord false 0) (by decide) (hcarries 10 (by decide)) rfl)
  exact .wait (.inr rfl) (.frame (i := zeroWord true 0) rfl rfl hword hword hlong
    (.frame (i := zeroWord true 0) rfl rfl hword hword hshort .nil))

theorem sends_frames_zeros :
    OnWire [List.replicate 82 0, List.replicate 106 0] (sentLanes default zeroFrames)
      ∧ (zeroFrames.foldl edge default).currentMacState = .idle :=
  sends_frames fed_zeroFrames rfl

end MacTx

end MlibDevel.FortyGbe
