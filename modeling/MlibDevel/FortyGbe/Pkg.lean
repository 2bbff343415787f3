import Mathlib.Algebra.GroupWithZero.Nat
import Mathlib.Data.Nat.Init

/-!
# The blocks of the 40 Gb/s PCS (`IEEE802_3_XL_PKG.vhd`)

Words of the XLGMII, eight bytes with a control bit for each, are sent as blocks of 66 bits.
-/

namespace MlibDevel.FortyGbe

/-- There are four lanes. -/
scoped instance neZeroFour : NeZero 4 := ⟨by decide⟩

/-- A word has eight bytes. -/
scoped instance neZeroEight : NeZero 8 := ⟨by decide⟩

/-- `BLOCK_t`: the header `H` and the payload `P` -/
structure Block where
  h : BitVec 2
  p : BitVec 64
  deriving DecidableEq, Repr, Inhabited

/-- The vector with these bits -/
def vectorOf : {w : Nat} → (Fin w → Bool) → BitVec w
  | 0, _ => 0#0
  | w + 1, f => BitVec.cons (f (Fin.last w)) (vectorOf fun i => f i.castSucc)

theorem getLsbD_vectorOf : {w i : Nat} → (f : Fin w → Bool) → (h : i < w) →
    (vectorOf f).getLsbD i = f ⟨i, h⟩
  | w + 1, i, f, h => by
    rw [vectorOf, BitVec.getLsbD_cons]
    by_cases hi : i = w
    · subst hi
      rw [if_pos rfl]
      rfl
    · rw [if_neg hi, getLsbD_vectorOf _ (by omega)]
      rfl

/-- `AM_BLOCKs` -/
def amBlocks : Fin 4 → Block
  | 0 => ⟨0b01, 0xffb8896f00477690⟩
  | 1 => ⟨0b01, 0xff193b0f00e6c4f0⟩
  | 2 => ⟨0b01, 0xff649a3a009b65c5⟩
  | 3 => ⟨0b01, 0xffc2865d003d79a2⟩

/-! ## Words -/

/-- `XLGMII_t`: the bytes `D`, and for each of them a bit of `C` -/
structure Xlgmii where
  c : Fin 8 → Bool
  d : Fin 8 → BitVec 8
  deriving Inhabited

/-- The control characters of the XLGMII: idle, ordered set, start, terminate and error -/
def rI : BitVec 8 := 0x07
def rO : BitVec 8 := 0x9C
def rS : BitVec 8 := 0xFB
def rT : BitVec 8 := 0xFD
def rE : BitVec 8 := 0xFE

/-- `IBLOCK_R` -/
def iblockR : Xlgmii := ⟨fun _ => true, fun _ => rI⟩

/-- `EBLOCK_R` -/
def eblockR : Xlgmii := ⟨fun _ => true, fun _ => rE⟩

/-! ## Control blocks -/

/-- The block type fields -/
def bCX : BitVec 8 := 0x1E
def bS0 : BitVec 8 := 0x78
def bO0 : BitVec 8 := 0x4B

/-- `bT0` to `bT7` -/
def bT : Fin 8 → BitVec 8
  | 0 => 0x87
  | 1 => 0x99
  | 2 => 0xAA
  | 3 => 0xB4
  | 4 => 0xCC
  | 5 => 0xD2
  | 6 => 0xE1
  | 7 => 0xFF

/-- The control characters of a block -/
def cI : BitVec 7 := 0b0000000
def cE : BitVec 7 := 0b0011110

/-- `IBLOCK_T` -/
def iblockT : Block := ⟨0b01, cI ++ cI ++ cI ++ cI ++ cI ++ cI ++ cI ++ cI ++ bCX⟩

/-- `EBLOCK_T` -/
def eblockT : Block := ⟨0b01, cE ++ cE ++ cE ++ cE ++ cE ++ cE ++ cE ++ cE ++ bCX⟩

/-- `LBLOCK_T` -/
def lblockT : Block := ⟨0b01, 0x0000000#28 ++ 0x0#4 ++ 0x01#8 ++ 0x00#8 ++ 0x00#8 ++ bO0⟩

/-- `BLOCK_TYPE_t` -/
inductive BlockType
  | dx
  | ix
  | s0
  | o0
  | tx
  | ex
  deriving DecidableEq, Repr, Inhabited

/-- `T_TYPE_t` and `R_TYPE_t` -/
inductive WordType
  | c
  | s
  | t
  | d
  | e
  deriving DecidableEq, Repr, Inhabited

end MlibDevel.FortyGbe
