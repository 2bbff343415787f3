import MlibDevel.FortyGbe.MacTx

/-!
# Bytes and bits of the MAC

Words are read as lists of bytes, bytes as lists of bits.  The check of a frame is that of its bits
in the order in which they are sent, the lowest bit of each byte first; behind the frame its check
is sent as `frameCheck`.
-/

namespace MlibDevel.FortyGbe

open Lib

/-! ## Bytes -/

@[simp] theorem length_bytesOf (d : Fin 32 → BitVec 8) : (bytesOf d).length = 32 := List.length_ofFn

/-- A word that begins with given bytes -/
theorem bytesOf_getD {l : List (BitVec 8)} {b : BitVec 8} (h : l.length ≤ 32) :
    bytesOf (fun i => l.getD i b) = l ++ List.replicate (32 - l.length) b := by
  apply List.ext_getElem
  · rw [length_bytesOf, List.length_append, List.length_replicate]
    omega
  · intro i h₁ h₂
    rw [length_bytesOf] at h₁
    simp only [bytesOf, List.getElem_ofFn, List.getD_eq_getElem?_getD]
    by_cases hi : i < l.length
    · rw [List.getElem_append_left hi, List.getElem?_eq_getElem hi, Option.getD_some]
    · rw [List.getElem_append_right (by omega), List.getElem_replicate,
        List.getElem?_eq_none (by omega), Option.getD_none]

/-- The bits of bytes, in the order in which they are sent -/
def bitsOfBytes (bytes : List (BitVec 8)) : List Bool := bytes.flatMap bitsOf

theorem bitsOfBytes_append (l l' : List (BitVec 8)) :
    bitsOfBytes (l ++ l') = bitsOfBytes l ++ bitsOfBytes l' :=
  List.flatMap_append

theorem length_bitsOfBytes : ∀ l : List (BitVec 8), (bitsOfBytes l).length = 8 * l.length
  | [] => rfl
  | b :: l => by
    rw [bitsOfBytes, List.flatMap_cons, List.length_append, length_bitsOf, List.length_cons]
    have := length_bitsOfBytes l
    rw [bitsOfBytes] at this
    omega

theorem bitsOfBytes_take (k : Nat) :
    ∀ l : List (BitVec 8), bitsOfBytes (l.take k) = (bitsOfBytes l).take (8 * k) := by
  induction k with
  | zero => intro l; rfl
  | succ k ih =>
    intro l
    cases l with
    | nil => rfl
    | cons b l =>
      have hbits : bitsOfBytes (b :: l) = bitsOf b ++ bitsOfBytes l := rfl
      have hbits' : bitsOfBytes (b :: l.take k) = bitsOf b ++ bitsOfBytes (l.take k) := rfl
      have hsplit : 8 * (k + 1) = (bitsOf b).length + 8 * k := by rw [length_bitsOf]; omega
      rw [List.take_succ_cons, hbits, hbits', ih l, hsplit, List.take_length_add_append]

theorem bitsOfBytes_drop (k : Nat) (l : List (BitVec 8)) :
    bitsOfBytes (l.drop k) = (bitsOfBytes l).drop (8 * k) := by
  by_cases hk : k ≤ l.length
  · have hlen : (bitsOfBytes (l.take k)).length = 8 * k := by
      rw [length_bitsOfBytes, List.length_take, Nat.min_eq_left hk]
    have hsplit := bitsOfBytes_append (l.take k) (l.drop k)
    rw [List.take_append_drop] at hsplit
    rw [hsplit, ← hlen, List.drop_left]
  · rw [List.drop_of_length_le (by omega),
      List.drop_of_length_le (by rw [length_bitsOfBytes]; omega)]
    rfl

/-- **Some bytes of a word are what a module is given**, the bits in the order of the register. -/
theorem bitsOf_dataInBitSwapped (d : Fin 32 → BitVec 8) {p k s n : Nat} (hn : n = 8 * k)
    (hs : s + n + 8 * p = 256) :
    (bitsOf ((dataInBitSwapped d).extractLsb' s n)).reverse = bitsOfBytes
      (((bytesOf d).drop p).take k) := by
  have hlen : (bitsOfBytes (bytesOf d)).length = 256 := by rw [length_bitsOfBytes, length_bytesOf]
  rw [bitsOfBytes_take, bitsOfBytes_drop]
  apply List.ext_getElem
  · rw [List.length_reverse, length_bitsOf, List.length_take, List.length_drop]
    omega
  · intro i h₁ h₂
    rw [List.length_reverse, length_bitsOf] at h₁
    rw [List.getElem_reverse, List.getElem_take, List.getElem_drop]
    simp only [bitsOf, List.getElem_map, List.getElem_range, List.length_map, List.length_range]
    rw [BitVec.getLsbD_extractLsb', decide_eq_true (by omega), Bool.true_and, dataInBitSwapped,
      getLsbD_vectorOf _ (by omega)]
    have hindex : 255 - (s + (n - 1 - i)) = 8 * p + i := by omega
    show ((bitsOfBytes (bytesOf d)).getD (255 - (s + (n - 1 - i))) false) = _
    rw [hindex, List.getD_eq_getElem?_getD, List.getElem?_eq_getElem (by omega), Option.getD_some]

/-- The first bytes of a word -/
theorem bitsOf_dataInBitSwapped_take (d : Fin 32 → BitVec 8) {k s n : Nat} (hn : n = 8 * k)
    (hs : s + n = 256) :
    (bitsOf ((dataInBitSwapped d).extractLsb' s n)).reverse = bitsOfBytes ((bytesOf d).take k) := by
  have h := bitsOf_dataInBitSwapped d (p := 0) hn (by omega)
  rwa [List.drop_zero] at h

/-- A whole word -/
theorem bitsOf_dataInBitSwapped_all (d : Fin 32 → BitVec 8) :
    (bitsOf (dataInBitSwapped d)).reverse = bitsOfBytes (bytesOf d) := by
  have h := bitsOf_dataInBitSwapped_take d (k := 32) (s := 0) (n := 256) rfl rfl
  rwa [BitVec.extractLsb'_eq_self, List.take_of_length_le (by simp)] at h

/-! ## The check of a frame -/

/-- `crc_init` -/
def crcOnes : List Bool := List.replicate 32 true

theorem length_crcOnes :
    crcOnes.length = crcPoly.length := by rw [length_crcPoly, crcOnes, List.length_replicate]

theorem bitsOf_allOnes : bitsOf (BitVec.allOnes 32) = crcOnes := by decide

/-- The check of a frame, as a word -/
def frameCheck (bytes : List (BitVec 8)) : BitVec 32 :=
  vectorOf fun i : Fin 32 => (fcsOf crcPoly crcOnes (bitsOfBytes bytes)).getD i false

theorem bitsOf_frameCheck (bytes : List (BitVec 8)) :
    bitsOf (frameCheck bytes) = fcsOf crcPoly crcOnes (bitsOfBytes bytes) := by
  have hlen : (fcsOf crcPoly crcOnes (bitsOfBytes bytes)).length = 32 := by
    rw [length_fcsOf _ length_crcOnes, length_crcPoly]
  rw [frameCheck, bitsOf_vectorOf fun i => (fcsOf crcPoly crcOnes (bitsOfBytes bytes)).getD i false]
  apply List.ext_getElem
  · rw [List.length_map, List.length_range, hlen]
  · intro i h₁ h₂
    simp [List.getD_eq_getElem?_getD, List.getElem?_eq_getElem h₂]

/-- The complement of the register, its highest bit first -/
def crcOutOf (crc : BitVec 32) : BitVec 32 := vectorOf fun i : Fin 32 => !crc.getLsbD (31 - i)

theorem bitsOf_crcOutOf (crc : BitVec 32) :
    bitsOf (crcOutOf crc) = (bitsOf crc).reverse.map not := by
  rw [crcOutOf, bitsOf_vectorOf fun i => !crc.getLsbD (31 - i)]
  apply List.ext_getElem (by simp)
  intro i h₁ h₂
  simp [bitsOf]

/-- The register has taken these bytes since it was reset. -/
def Took (crc : BitVec 32) (bytes : List (BitVec 8)) : Prop :=
  bitsOf crc = checkBits crcPoly crcOnes (bitsOfBytes bytes)

theorem took_nil : Took (BitVec.allOnes 32) [] := bitsOf_allOnes

/-- A module takes more bytes. -/
theorem Took.more {crc : BitVec 32} {before bytes : List (BitVec 8)} (h : Took crc before) {n : Nat}
    {rows : List (Nat × Nat)} (hrows : rows = serialRows n) {x : BitVec n}
      (hx : (bitsOf x).reverse = bitsOfBytes bytes) :
    Took (FortyGbe.crcOut rows x crc) (before ++ bytes) := by
  rw [Took, bitsOf_crcOut hrows, hx, h, bitsOfBytes_append]
  exact (crcBits_append _ _ _ _ _ _).symm

/-- A register that has taken a frame puts out its check. -/
theorem Took.crcOutOf_eq {crc : BitVec 32} {bytes : List (BitVec 8)} (h : Took crc bytes) :
    crcOutOf crc = frameCheck bytes := by
  apply bitsOf_inj
  rw [bitsOf_crcOutOf, bitsOf_frameCheck, h]
  rfl

/-! ## Lanes -/

/-- The lanes of a word -/
def lanesOf (w : MacWord) : List Lane := List.ofFn fun i => (w.c i, w.d i)

/-- The lanes of data bytes -/
def dataLanes (bytes : List (BitVec 8)) : List Lane := bytes.map fun b => (false, b)

/-- The lanes of control bytes -/
def controlLanes (bytes : List (BitVec 8)) : List Lane := bytes.map fun b => (true, b)

/-- Idle lanes -/
def idleLanes (n : Nat) : List Lane := List.replicate n (true, cIdleByte)

/-- A frame on the XLGMII: start, preamble, payload, check and end -/
def wireLanes (payload : List (BitVec 8)) (check : BitVec 32) : List Lane :=
  controlLanes [cStartByte] ++ dataLanes [0x55, 0x55, 0x55, 0x55, 0x55, 0x55, 0xD5]
    ++ dataLanes payload
    ++ dataLanes (bytes4 check) ++ controlLanes [cTerminateByte]

@[simp] theorem length_lanesOf (w : MacWord) : (lanesOf w).length = 32 := List.length_ofFn

theorem dataLanes_append (l l' : List (BitVec 8)) :
    dataLanes (l ++ l') = dataLanes l ++ dataLanes l' :=
  List.map_append

theorem lanesOf_idle : lanesOf cIdle = idleLanes 32 := by
  apply List.ext_getElem (by simp [idleLanes])
  intro i _ _
  simp [lanesOf, cIdle, idleLanes]

/-- A word that begins with data bytes, and has control bytes and idle bytes behind them -/
theorem lanesOf_macWord {l l' : List (BitVec 8)} (h : l.length + l'.length ≤ 32) :
    lanesOf (macWord l.length (l ++ l'))
      = dataLanes l ++ controlLanes l' ++ idleLanes (32 - (l.length + l'.length)) := by
  apply List.ext_getElem
  · simp [dataLanes, controlLanes, idleLanes]
    omega
  · intro i h₁ h₂
    rw [length_lanesOf] at h₁
    simp only [lanesOf, macWord, List.getElem_ofFn, List.getD_eq_getElem?_getD]
    by_cases hi : i < l.length
    · rw [List.getElem_append_left (by simp [dataLanes, controlLanes]; omega),
        List.getElem_append_left (by simp [dataLanes]; omega), List.getElem?_append_left hi]
      simp [dataLanes, hi]
    · by_cases hi' : i < l.length + l'.length
      · rw [List.getElem_append_left (by simp [dataLanes, controlLanes]; omega),
          List.getElem_append_right (by simp [dataLanes]; omega),
          List.getElem?_append_right (by omega)]
        have hlt : i - l.length < l'.length := by omega
        simp [dataLanes, controlLanes, hlt]
        omega
      · rw [List.getElem_append_right (by simp [dataLanes, controlLanes]; omega),
          List.getElem?_eq_none (by simp; omega)]
        simp [idleLanes]
        omega

end MlibDevel.FortyGbe
