import Mathlib.Algebra.GroupWithZero.Nat

/-!
# The Internet checksum

RFC 1071: 16-bit words are added in ones' complement, that is, a carry out of the upper end is added
at the lower end, and the checksum is the complement of the sum.

A sum in ones' complement is the sum modulo 65535, with 65535 in place of 0 unless all the words are
zero (`toNat_onesSum`).
-/

namespace MlibDevel.Lib

/-- Addition with end-around carry. -/
def onesAdd (x y : BitVec 16) : BitVec 16 :=
  BitVec.ofNat 16 ((x.toNat + y.toNat) % 65536 + (x.toNat + y.toNat) / 65536)

/-- The ones' complement sum of some words. -/
def onesSum (ws : List (BitVec 16)) : BitVec 16 := ws.foldl onesAdd 0

/-- The checksum of some words. -/
def internetChecksum (ws : List (BitVec 16)) : BitVec 16 := ~~~onesSum ws

/-- The words of a sequence of bytes, the upper byte first. -/
def words16 : List (BitVec 8) → List (BitVec 16)
  | upper :: lower :: rest => (upper ++ lower) :: words16 rest
  | _ => []

/-- A sum with all its carries added at the lower end. -/
def foldSum (n : Nat) : Nat := if n = 0 then 0 else (n - 1) % 65535 + 1

theorem foldSum_lt (n : Nat) : foldSum n < 65536 := by
  unfold foldSum
  split <;> omega

/-- A number that fits is not changed. -/
theorem foldSum_of_lt {n : Nat} (h : n < 65536) : foldSum n = n := by
  unfold foldSum
  split <;> omega

/-- The upper part can be added to the lower one at any time. -/
theorem foldSum_carry (n m : Nat) : foldSum (n % 65536 + n / 65536 + m) = foldSum (n + m) := by
  unfold foldSum
  split <;> split <;> omega

theorem toNat_onesAdd (x y : BitVec 16) : (onesAdd x y).toNat = foldSum (x.toNat + y.toNat) := by
  have hx := x.isLt
  have hy := y.isLt
  have hcarry := foldSum_carry (x.toNat + y.toNat) 0
  have hfits : (x.toNat + y.toNat) % 65536 + (x.toNat + y.toNat) / 65536 < 65536 := by omega
  rw [onesAdd, BitVec.toNat_ofNat, Nat.mod_eq_of_lt hfits, ← foldSum_of_lt hfits]
  exact hcarry

theorem foldSum_foldSum (n m : Nat) : foldSum (foldSum n + m) = foldSum (n + m) := by
  unfold foldSum
  split <;> split <;> split <;> omega

theorem toNat_foldl_onesAdd : ∀ (ws : List (BitVec 16)) (x : BitVec 16),
    (ws.foldl onesAdd x).toNat = foldSum (x.toNat + (ws.map BitVec.toNat).sum)
  | [], x => (foldSum_of_lt x.isLt).symm
  | w :: ws, x => by
    rw [List.foldl_cons, toNat_foldl_onesAdd ws, toNat_onesAdd, foldSum_foldSum, List.map_cons,
      List.sum_cons, Nat.add_assoc]

theorem toNat_onesSum (ws : List (BitVec 16)) :
    (onesSum ws).toNat = foldSum (ws.map BitVec.toNat).sum := by
  rw [onesSum, toNat_foldl_onesAdd]
  simp

theorem toNat_internetChecksum (ws : List (BitVec 16)) :
    (internetChecksum ws).toNat = 65535 - foldSum (ws.map BitVec.toNat).sum := by
  rw [internetChecksum, BitVec.toNat_not, toNat_onesSum]

end MlibDevel.Lib
