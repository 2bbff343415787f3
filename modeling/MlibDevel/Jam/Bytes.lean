import Mathlib.Data.List.Lex
import Mathlib.Data.UInt

/-!
# Bytes, C strings and big-endian words

A pointer into a byte buffer is modelled by the bytes from it to the end of the buffer, so
`p++` is `tail` and `p += n` is `drop n`.  Reading through a pointer that has run off the end of a
buffer is an error of the model (`none`), which is what makes "no byte outside the buffer is read"
a consequence of "the result is not `none`".

A NUL-terminated string is the list of its characters: its end reads as NUL.
-/

namespace MlibDevel.Jam

/-- Bytes are ordered by value, as C's `unsigned char` and Python's ASCII characters are. -/
instance linearOrderUInt8 : LinearOrder UInt8 where
  le_refl := UInt8.le_refl
  le_trans _ _ _ := UInt8.le_trans
  lt_iff_le_not_ge a b := by
    simp only [UInt8.le_iff_toNat_le, UInt8.lt_iff_toNat_lt]; omega
  le_antisymm _ _ := UInt8.le_antisymm
  le_total := UInt8.le_total
  toDecidableLE := inferInstance
  toDecidableEq := inferInstance
  toDecidableLT := inferInstance

/-- `*p` for a pointer into a NUL-terminated string. -/
def deref (p : List UInt8) : UInt8 := p.headD 0

@[simp] theorem deref_nil : deref [] = 0 := rfl

@[simp] theorem deref_cons (c : UInt8) (p : List UInt8) : deref (c :: p) = c := rfl

/-- A string without NUL characters reads as NUL only at its end. -/
theorem deref_eq_zero_iff {p : List UInt8} (h : 0 ∉ p) : deref p = 0 ↔ p = [] := by
  cases p with
  | nil => simp
  | cons c p =>
    simp only [List.mem_cons, not_or] at h
    simp [deref, Ne.symm h.1]

/-- The string a `char *` denotes: everything before the first NUL. -/
def cstr (p : List UInt8) : List UInt8 := p.takeWhile (· ≠ 0)

/-- The characters of an ASCII string literal. -/
def ascii (s : String) : List UInt8 := s.toList.map fun c => UInt8.ofNat c.toNat

/-- The four bytes of a 32-bit word, most significant first (`struct.pack('>I', n)`). -/
def be32 (n : Nat) : List UInt8 :=
  [UInt8.ofNat (n / 2 ^ 24), UInt8.ofNat (n / 2 ^ 16), UInt8.ofNat (n / 2 ^ 8), UInt8.ofNat n]

@[simp] theorem length_be32 (n : Nat) : (be32 n).length = 4 := rfl

end MlibDevel.Jam
