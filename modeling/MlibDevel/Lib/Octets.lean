/-!
# Bytes of machine words

Words cut into bytes and put together again.
-/

namespace MlibDevel.Lib

/-- Byte `i`, counted from the least significant one. -/
def byte {w : Nat} (x : BitVec w) (i : Nat) : BitVec 8 := x.extractLsb' (8 * i) 8

/-- A word of eight bytes, the most significant one first. -/
def ofBytes (b₇ b₆ b₅ b₄ b₃ b₂ b₁ b₀ : BitVec 8) : BitVec 64 :=
  b₇ ++ b₆ ++ b₅ ++ b₄ ++ b₃ ++ b₂ ++ b₁ ++ b₀

/-- A value of six bytes, the most significant one first. -/
def ofBytes48 (b₅ b₄ b₃ b₂ b₁ b₀ : BitVec 8) : BitVec 48 := b₅ ++ b₄ ++ b₃ ++ b₂ ++ b₁ ++ b₀

/-- The word `x` with `b` for its byte `i`. -/
def setByte {w : Nat} (x : BitVec w) (i : Nat) (b : BitVec 8) : BitVec w :=
  (x &&& ~~~((0xff#8).setWidth w <<< (8 * i))) ||| (b.setWidth w <<< (8 * i))

@[simp] theorem byte_zero {w : Nat} (i : Nat) : byte (0 : BitVec w) i = 0 := by
  unfold byte
  simp

theorem byte_append_zero {n : Nat} (x : BitVec n) (y : BitVec 8) :
    (x ++ y).extractLsb' (8 * 0) 8 = y := by
  ext j hj
  simp [BitVec.getElem_extractLsb', BitVec.getLsbD_append, hj]

/-- What lies above the last byte. -/
theorem extract_append_succ {n : Nat} (x : BitVec n) (y : BitVec 8) (s k : Nat) :
    (x ++ y).extractLsb' (s + 8) k = x.extractLsb' s k := by
  ext j hj
  have hlow : ¬s + 8 + j < 8 := by omega
  simp only [BitVec.getElem_extractLsb', BitVec.getLsbD_append, hlow, if_false]
  congr 1
  omega

theorem byte_append_succ {n : Nat} (x : BitVec n) (y : BitVec 8) (i : Nat) :
    (x ++ y).extractLsb' (8 * (i + 1)) 8 = x.extractLsb' (8 * i) 8 :=
  extract_append_succ x y (8 * i) 8

theorem getLsbD_setByte {w : Nat} (x : BitVec w) (i : Nat) (b : BitVec 8) (n : Nat) :
    (setByte x i b).getLsbD n
      = if n < w then (if 8 * i ≤ n ∧ n < 8 * i + 8 then b.getLsbD (n - 8 * i) else x.getLsbD n)
        else false := by
  have hones : ∀ k, (0xff#8).getLsbD k = decide (k < 8) := by
    intro k
    rw [show (0xff#8) = BitVec.allOnes 8 from rfl, BitVec.getLsbD_allOnes]
  unfold setByte
  simp only [BitVec.getLsbD_or, BitVec.getLsbD_and, BitVec.getLsbD_not, BitVec.getLsbD_shiftLeft,
    BitVec.getLsbD_setWidth, hones]
  by_cases hn : n < w
  · by_cases hlow : 8 * i ≤ n
    · by_cases hhigh : n < 8 * i + 8
      · simp [hn, hlow, hhigh, show n - 8 * i < 8 by omega, show ¬n < 8 * i by omega,
          show n - 8 * i < w by omega]
      · simp [hn, hlow, hhigh, show ¬n - 8 * i < 8 by omega,
          BitVec.getLsbD_of_ge b (n - 8 * i) (by omega)]
    · simp [hn, hlow, show n < 8 * i by omega]
  · simp [hn]

theorem byte_setByte {w : Nat} (x : BitVec w) {i : Nat} (b : BitVec 8) (hi : 8 * i + 8 ≤ w)
    (k : Nat) : byte (setByte x i b) k = if k = i then b else byte x k := by
  ext j hj
  rw [byte, BitVec.getElem_extractLsb', getLsbD_setByte]
  by_cases hk : k = i
  · subst hk
    simp [hj, show 8 * k + j < w by omega]
  · rw [if_neg hk, byte, BitVec.getElem_extractLsb', if_neg (show ¬(8 * i ≤ 8 * k + j ∧
      8 * k + j < 8 * i + 8) by omega)]
    by_cases hin : 8 * k + j < w
    · rw [if_pos hin]
    · rw [if_neg hin, BitVec.getLsbD_of_ge _ _ (by omega)]

section OfBytes

variable (b₇ b₆ b₅ b₄ b₃ b₂ b₁ b₀ : BitVec 8)

@[simp] theorem byte_ofBytes_0 : byte (ofBytes b₇ b₆ b₅ b₄ b₃ b₂ b₁ b₀) 0 = b₀ := by
  unfold byte ofBytes
  rw [byte_append_zero]

@[simp] theorem byte_ofBytes_1 : byte (ofBytes b₇ b₆ b₅ b₄ b₃ b₂ b₁ b₀) 1 = b₁ := by
  unfold byte ofBytes
  rw [byte_append_succ, byte_append_zero]

@[simp] theorem byte_ofBytes_2 : byte (ofBytes b₇ b₆ b₅ b₄ b₃ b₂ b₁ b₀) 2 = b₂ := by
  unfold byte ofBytes
  rw [byte_append_succ _ b₀, byte_append_succ _ b₁, byte_append_zero]

@[simp] theorem byte_ofBytes_3 : byte (ofBytes b₇ b₆ b₅ b₄ b₃ b₂ b₁ b₀) 3 = b₃ := by
  unfold byte ofBytes
  rw [byte_append_succ _ b₀, byte_append_succ _ b₁, byte_append_succ _ b₂, byte_append_zero]

@[simp] theorem byte_ofBytes_4 : byte (ofBytes b₇ b₆ b₅ b₄ b₃ b₂ b₁ b₀) 4 = b₄ := by
  unfold byte ofBytes
  rw [byte_append_succ _ b₀, byte_append_succ _ b₁, byte_append_succ _ b₂, byte_append_succ _ b₃,
    byte_append_zero]

@[simp] theorem byte_ofBytes_5 : byte (ofBytes b₇ b₆ b₅ b₄ b₃ b₂ b₁ b₀) 5 = b₅ := by
  unfold byte ofBytes
  rw [byte_append_succ _ b₀, byte_append_succ _ b₁, byte_append_succ _ b₂, byte_append_succ _ b₃,
    byte_append_succ _ b₄, byte_append_zero]

@[simp] theorem byte_ofBytes_6 : byte (ofBytes b₇ b₆ b₅ b₄ b₃ b₂ b₁ b₀) 6 = b₆ := by
  unfold byte ofBytes
  rw [byte_append_succ _ b₀, byte_append_succ _ b₁, byte_append_succ _ b₂, byte_append_succ _ b₃,
    byte_append_succ _ b₄, byte_append_succ _ b₅, byte_append_zero]

@[simp] theorem byte_ofBytes_7 : byte (ofBytes b₇ b₆ b₅ b₄ b₃ b₂ b₁ b₀) 7 = b₇ := by
  unfold byte ofBytes
  rw [byte_append_succ _ b₀, byte_append_succ _ b₁, byte_append_succ _ b₂, byte_append_succ _ b₃,
    byte_append_succ _ b₄, byte_append_succ _ b₅, byte_append_succ b₇ b₆]
  exact BitVec.extractLsb'_eq_self

@[simp] theorem byte_ofBytes48_0 : byte (ofBytes48 b₅ b₄ b₃ b₂ b₁ b₀) 0 = b₀ := by
  unfold byte ofBytes48
  rw [byte_append_zero]

@[simp] theorem byte_ofBytes48_1 : byte (ofBytes48 b₅ b₄ b₃ b₂ b₁ b₀) 1 = b₁ := by
  unfold byte ofBytes48
  rw [byte_append_succ _ b₀, byte_append_zero]

@[simp] theorem byte_ofBytes48_2 : byte (ofBytes48 b₅ b₄ b₃ b₂ b₁ b₀) 2 = b₂ := by
  unfold byte ofBytes48
  rw [byte_append_succ _ b₀, byte_append_succ _ b₁, byte_append_zero]

@[simp] theorem byte_ofBytes48_3 : byte (ofBytes48 b₅ b₄ b₃ b₂ b₁ b₀) 3 = b₃ := by
  unfold byte ofBytes48
  rw [byte_append_succ _ b₀, byte_append_succ _ b₁, byte_append_succ _ b₂, byte_append_zero]

@[simp] theorem byte_ofBytes48_4 : byte (ofBytes48 b₅ b₄ b₃ b₂ b₁ b₀) 4 = b₄ := by
  unfold byte ofBytes48
  rw [byte_append_succ _ b₀, byte_append_succ _ b₁, byte_append_succ _ b₂, byte_append_succ _ b₃,
    byte_append_zero]

@[simp] theorem byte_ofBytes48_5 : byte (ofBytes48 b₅ b₄ b₃ b₂ b₁ b₀) 5 = b₅ := by
  unfold byte ofBytes48
  rw [byte_append_succ _ b₀, byte_append_succ _ b₁, byte_append_succ _ b₂, byte_append_succ _ b₃,
    byte_append_succ b₅ b₄]
  exact BitVec.extractLsb'_eq_self

/-- The three upper bytes. -/
theorem extract_ofBytes48 : (ofBytes48 b₅ b₄ b₃ b₂ b₁ b₀).extractLsb' 24 24 = b₅ ++ b₄ ++ b₃ := by
  unfold ofBytes48
  rw [extract_append_succ _ b₀ 16, extract_append_succ _ b₁ 8, extract_append_succ _ b₂ 0]
  exact BitVec.extractLsb'_eq_self

end OfBytes

/-- A byte put behind the ones above it. -/
theorem extract_append_byte {w n i : Nat} (x : BitVec w) :
    x.extractLsb' (8 * (i + 1)) n ++ byte x i = x.extractLsb' (8 * i) (n + 8) :=
  BitVec.extractLsb'_append_extractLsb'_eq_extractLsb' rfl

theorem bytes_16 (x : BitVec 16) : byte x 1 ++ byte x 0 = x := by
  rw [byte, extract_append_byte]
  exact BitVec.extractLsb'_eq_self

theorem bytes_32 (x : BitVec 32) : byte x 3 ++ byte x 2 ++ byte x 1 ++ byte x 0 = x := by
  rw [byte, extract_append_byte, extract_append_byte, extract_append_byte]
  exact BitVec.extractLsb'_eq_self

theorem bytes_48 (x : BitVec 48) :
    byte x 5 ++ byte x 4 ++ byte x 3 ++ byte x 2 ++ byte x 1 ++ byte x 0 = x := by
  rw [byte, extract_append_byte, extract_append_byte, extract_append_byte,
    extract_append_byte, extract_append_byte]
  exact BitVec.extractLsb'_eq_self

theorem bytes_64 (x : BitVec 64) :
    byte x 7 ++ byte x 6 ++ byte x 5 ++ byte x 4 ++ byte x 3 ++ byte x 2 ++ byte x 1 ++ byte x 0
      = x := by
  rw [byte, extract_append_byte, extract_append_byte, extract_append_byte,
    extract_append_byte, extract_append_byte, extract_append_byte,
    extract_append_byte]
  exact BitVec.extractLsb'_eq_self

end MlibDevel.Lib
