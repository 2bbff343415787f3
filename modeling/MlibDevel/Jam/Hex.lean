import MlibDevel.Jam.Bytes

/-!
# Hexadecimal text (`casper_tapcp.c`)

The character tests are those of `ctype.h` in the C locale.  A function that writes through a
pointer and returns the advanced pointer is modelled by the bytes it writes.
-/

namespace MlibDevel.Jam

/-! ## Characters -/

/-- `isdigit` -/
def isdigit (c : UInt8) : Bool := 0x30 ≤ c && c ≤ 0x39

/-- `isxdigit` -/
def isxdigit (c : UInt8) : Bool :=
  isdigit c || (0x41 ≤ c && c ≤ 0x46) || (0x61 ≤ c && c ≤ 0x66)

/-- `isspace`: the space and the characters from tab to carriage return. -/
def isspace (c : UInt8) : Bool := c = 0x20 || (0x09 ≤ c && c ≤ 0x0d)

/-- `'\n'` -/
def newline : UInt8 := 0x0a

/-- `':'` -/
def colon : UInt8 := 0x3a

/-! ## Reading -/

/-- The value `hex_to_u32` gives a digit; letters are made lower case first. -/
def xdigitValue (c : UInt8) : UInt32 :=
  if isdigit c then c.toUInt32 - 0x30 else (c ||| 0x20).toUInt32 - 0x61 + 10

/-- The loop of `hex_to_u32`, with `i` digits to go. -/
def hexLoop : Nat → List UInt8 → UInt32 → UInt32 × List UInt8
  | 0, p, u32 => (u32, p)
  | i + 1, p, u32 =>
    if !isxdigit (deref p) then (u32, p)
    else hexLoop i p.tail ((u32 <<< 4) ||| xdigitValue (deref p))

/--
`hex_to_u32`: the new value of `*u32` and the advanced pointer.  At the end of the string the value
is left alone.
-/
def hexToU32 (p : List UInt8) (u32 : UInt32) : UInt32 × List UInt8 :=
  if deref p ≠ 0 then hexLoop 8 p 0 else (u32, p)

/-- The nybble `hex_to_u8` makes of a character, hex digit or not. -/
def nybble (c : UInt8) : UInt8 :=
  if isdigit c then (c - 0x30) &&& 0xf else ((c ||| 0x20) - 0x61 + 10) &&& 0xf

/-- `hex_to_u8`: the bytes made of `2*nbytes` characters. -/
def hexToU8 : Nat → List UInt8 → List UInt8
  | 0, _ => []
  | nbytes + 1, p =>
    (nybble (deref p) <<< 4 ||| nybble (deref p.tail)) :: hexToU8 nbytes p.tail.tail

/-! ## Writing -/

/-- A hex digit in upper case. -/
def hexDigit (c : UInt8) : UInt8 := if c > 9 then c - 10 + 0x41 else c + 0x30

/--
`u8_to_hex`: a leading zero is written when `do_zeros >> 4` is not zero, a trailing one when there
is a leading digit or `do_zeros & 0xf` is not zero.
-/
def u8ToHex (u8 doZeros : UInt8) : List UInt8 :=
  let hi := (u8 >>> 4) &&& 0xf
  let lo := u8 &&& 0xf
  if hi ≠ 0 || doZeros >>> 4 ≠ 0 then
    hexDigit hi ::
      (if lo ≠ 0 || (doZeros ||| hi) &&& 0xf ≠ 0 then [hexDigit lo] else [])
  else if lo ≠ 0 || doZeros &&& 0xf ≠ 0 then [hexDigit lo] else []

/-- The loop of `u32_to_hex` over the bytes of a word, most significant first. -/
def u32ToHexLoop : List UInt8 → UInt8 → List UInt8
  | [], _ => []
  | c :: cs, doZeros =>
    u8ToHex c (if doZeros ≠ 0 then 0x11 else if cs = [] then 1 else 0)
      ++ u32ToHexLoop cs (doZeros ||| c)

/-- `u32_to_hex` -/
def u32ToHex (u32 : UInt32) (doZeros : UInt8) : List UInt8 :=
  u32ToHexLoop [(u32 >>> 24).toUInt8, (u32 >>> 16).toUInt8, (u32 >>> 8).toUInt8, u32.toUInt8]
    doZeros

/-! ## The digits of a dump -/

/-- A property of bytes can be checked on the 256 values. -/
theorem forall_byte {P : UInt8 → Prop} (h : ∀ n < 256, P (UInt8.ofNat n)) (u : UInt8) : P u := by
  have hu := h u.toNat u.toNat_lt
  rwa [UInt8.ofNat_toNat] at hu

/-- With all zeros a byte has two digits, which are hex digits. -/
theorem u8ToHex_zeros (u8 : UInt8) :
    (u8ToHex u8 0x11).length = 2 ∧ ∀ c ∈ u8ToHex u8 0x11, isxdigit c = true := by
  have hall : (u8ToHex u8 0x11).length = 2 ∧ (u8ToHex u8 0x11).all isxdigit = true :=
    forall_byte (P := fun u => (u8ToHex u 0x11).length = 2 ∧ (u8ToHex u 0x11).all isxdigit = true)
      (by decide +kernel) u8
  exact ⟨hall.1, List.all_eq_true.mp hall.2⟩

/-- With leading zeros every byte of a word has two digits. -/
theorem u32ToHexLoop_zeros : ∀ (cs : List UInt8) {doZeros : UInt8}, doZeros ≠ 0 →
    u32ToHexLoop cs doZeros = cs.flatMap fun c => u8ToHex c 0x11
  | [], _, _ => rfl
  | c :: cs, doZeros, h => by
    have hor : doZeros ||| c ≠ 0 := fun he => h (UInt8.or_eq_zero_iff.mp he).1
    rw [u32ToHexLoop, if_pos h, u32ToHexLoop_zeros cs hor, List.flatMap_cons]

/-- A word of a dump has eight digits. -/
theorem u32ToHex_zeros (u32 : UInt32) :
    (u32ToHex u32 1).length = 8 ∧ ∀ c ∈ u32ToHex u32 1, isxdigit c = true := by
  rw [u32ToHex, u32ToHexLoop_zeros _ (by decide)]
  constructor
  · simp only [List.flatMap_cons, List.flatMap_nil, List.length_append, (u8ToHex_zeros _).1]
    rfl
  · intro c hc
    obtain ⟨u, -, hu⟩ := List.mem_flatMap.mp hc
    exact (u8ToHex_zeros u).2 c hu

end MlibDevel.Jam
