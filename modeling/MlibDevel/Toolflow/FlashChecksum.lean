import Mathlib.Order.Bounds.Basic
import MlibDevel.Lib.OnesComplement

/-!
# The checksum of a flash image (`toolflow.py`)

An image is written to the flash in packets, the last one filled up with `0xff`.  The checksum of
the words of all packets is calculated from the bitstream alone.

Main result: `calculateChecksumUsingBitstream_eq` (it is the checksum of what is written).
-/

namespace MlibDevel.Toolflow

open Lib

/-! ## The calculation -/

/-- `struct.unpack('!H', two_bytes)[0]` -/
def unpackH : List (BitVec 8) → Option Nat
  | [upper, lower] => some (256 * upper.toNat + lower.toNat)
  | _ => none

/-- `flash_write_checksum += one_word`, for the word at `i` -/
def addWord (bitstream : List (BitVec 8)) (flashWriteChecksum i : Nat) : Option Nat :=
  (unpackH ((bitstream.drop i).take 2)).map fun oneWord => flashWriteChecksum + oneWord

/-- `calculate_checksum_using_bitstream`.  There is no checksum of an odd number of bytes, and none
for packets of no bytes. -/
def calculateChecksumUsingBitstream (bitstream : List (BitVec 8)) (packetSize : Nat) :
    Option Nat := do
  let size := bitstream.length
  let words ← (List.range' 0 ((size + 1) / 2) 2).foldlM (addWord bitstream) 0
  if packetSize = 0 then none
  else if size % packetSize ≠ 0 then
    let numPaddingBytes := packetSize - size % packetSize
    let flashWriteChecksum :=
      (List.range (numPaddingBytes / 2)).foldl (fun sum _ => sum + 0xffff) words
    some (flashWriteChecksum &&& 0xffff)
  else some (words &&& 0xffff)

/-! ## What is written -/

/-- The image that is written, in whole packets -/
def paddedImage (bitstream : List (BitVec 8)) (packetSize : Nat) : List (BitVec 8) :=
  bitstream ++ List.replicate ((packetSize - bitstream.length % packetSize) % packetSize) 0xff#8

/-- The sum of the words of an image, without the carries -/
def imageChecksum (image : List (BitVec 8)) : Nat := ((words16 image).map BitVec.toNat).sum % 2 ^ 16

/-- The image is no longer than it has to be. -/
theorem length_paddedImage (bitstream : List (BitVec 8)) {packetSize : Nat}
    (hpos : 0 < packetSize) :
    IsLeast {m | bitstream.length ≤ m ∧ packetSize ∣ m}
      (paddedImage bitstream packetSize).length := by
  have hlen : (paddedImage bitstream packetSize).length =
      bitstream.length + (packetSize - bitstream.length % packetSize) % packetSize := by
    simp [paddedImage]
  have hsize := Nat.div_add_mod bitstream.length packetSize
  have hrest := Nat.mod_lt bitstream.length hpos
  rw [hlen]
  by_cases hzero : bitstream.length % packetSize = 0
  · rw [hzero, Nat.sub_zero, Nat.mod_self, Nat.add_zero]
    exact ⟨⟨Nat.le_refl _, Nat.dvd_of_mod_eq_zero hzero⟩, fun m hm => hm.1⟩
  · have hfill : (packetSize - bitstream.length % packetSize) % packetSize =
        packetSize - bitstream.length % packetSize := Nat.mod_eq_of_lt (by omega)
    have htotal : bitstream.length + (packetSize - bitstream.length % packetSize) =
        packetSize * (bitstream.length / packetSize + 1) := by
      rw [Nat.mul_succ]
      omega
    rw [hfill, htotal]
    refine ⟨⟨by omega, Nat.dvd_mul_right _ _⟩, ?_⟩
    rintro m ⟨hle, k, rfl⟩
    -- a multiple that is smaller would be smaller than the bitstream
    refine Nat.mul_le_mul_left packetSize (Nat.lt_of_mul_lt_mul_left (a := packetSize) ?_)
    omega

/-! ## The sums -/

theorem words16_append : ∀ (bs cs : List (BitVec 8)), bs.length % 2 = 0 →
    words16 (bs ++ cs) = words16 bs ++ words16 cs
  | [], cs, _ => rfl
  | [b], cs, h => by simp at h
  | upper :: lower :: bs, cs, h => by
    have hlen : bs.length % 2 = 0 := by
      simp only [List.length_cons] at h
      omega
    simp [words16, words16_append bs cs hlen]

theorem words16_fill (k : Nat) :
    words16 (List.replicate (2 * k) 0xff#8) = List.replicate k 0xffff#16 := by
  induction k with
  | zero => rfl
  | succ k ih =>
    show (0xff#8 ++ 0xff#8) :: words16 (List.replicate (2 * k) 0xff#8) = _
    rw [ih]
    rfl

/-- From any place on the loop adds the words that are left. -/
theorem foldlM_addWord : ∀ (before rest : List (BitVec 8)) (sum : Nat), rest.length % 2 = 0 →
    (List.range' before.length ((rest.length + 1) / 2) 2).foldlM (addWord (before ++ rest)) sum =
      some (sum + ((words16 rest).map BitVec.toNat).sum)
  | before, [], sum, _ => rfl
  | before, [b], sum, h => by simp at h
  | before, upper :: lower :: rest, sum, h => by
    have hlen : rest.length % 2 = 0 := by
      simp only [List.length_cons] at h
      omega
    have hcount : ((upper :: lower :: rest).length + 1) / 2 = (rest.length + 1) / 2 + 1 := by
      simp only [List.length_cons]
      omega
    have hword : (upper ++ lower : BitVec 16).toNat = 256 * upper.toNat + lower.toNat := by
      rw [BitVec.toNat_append, ← Nat.shiftLeft_add_eq_or_of_lt lower.isLt, Nat.shiftLeft_eq]
      omega
    have hadd : addWord (before ++ upper :: lower :: rest) sum before.length =
        some (sum + (upper ++ lower : BitVec 16).toNat) := by
      rw [addWord, List.drop_left, hword]
      rfl
    have hmore :=
      foldlM_addWord (before ++ [upper, lower]) rest (sum + (upper ++ lower : BitVec 16).toNat) hlen
    rw [List.length_append, List.append_assoc] at hmore
    rw [hcount, List.range'_succ, List.foldlM_cons, hadd, Option.bind_eq_bind, Option.bind_some]
    rw [words16, List.map_cons, List.sum_cons, ← Nat.add_assoc]
    exact hmore

theorem foldl_add_fill (k sum : Nat) :
    (List.range k).foldl (fun sum _ => sum + 0xffff) sum = sum + k * 0xffff := by
  induction k with
  | zero => simp
  | succ k ih =>
    rw [List.range_succ, List.foldl_append, ih, Nat.succ_mul, ← Nat.add_assoc]
    rfl

/-- The padding of a whole number of words adds what the loop adds. -/
theorem imageChecksum_fill {bitstream : List (BitVec 8)} (heven : bitstream.length % 2 = 0)
    (k : Nat) :
    imageChecksum (bitstream ++ List.replicate (2 * k) 0xff#8) =
      (((words16 bitstream).map BitVec.toNat).sum + k * 0xffff) &&& 0xffff := by
  have hand : ∀ x : Nat, x &&& 0xffff = x % 2 ^ 16 := fun x => Nat.and_two_pow_sub_one_eq_mod x 16
  rw [hand, imageChecksum, words16_append _ _ heven, words16_fill, List.map_append, List.sum_append,
    List.map_replicate, List.sum_replicate_nat]
  rfl

/-- **The checksum is that of the padded image**, which ends with the first packet that holds all of
the bitstream. -/
theorem calculateChecksumUsingBitstream_eq {bitstream : List (BitVec 8)} {packetSize : Nat}
    (heven : bitstream.length % 2 = 0) (hpos : 0 < packetSize) (hpacket : packetSize % 2 = 0) :
    calculateChecksumUsingBitstream bitstream packetSize =
        some (imageChecksum (paddedImage bitstream packetSize)) ∧
      IsLeast {m | bitstream.length ≤ m ∧ packetSize ∣ m}
        (paddedImage bitstream packetSize).length := by
  refine ⟨?_, length_paddedImage bitstream hpos⟩
  have hloop := foldlM_addWord [] bitstream 0 heven
  rw [List.length_nil, List.nil_append, Nat.zero_add] at hloop
  rw [calculateChecksumUsingBitstream]
  simp only [hloop, Option.bind_eq_bind, Option.bind_some, if_neg (Nat.ne_of_gt hpos),
    foldl_add_fill]
  have hrest : bitstream.length % packetSize % 2 = 0 := by
    rw [Nat.mod_mod_of_dvd _ (Nat.dvd_of_mod_eq_zero hpacket), heven]
  have hlt := Nat.mod_lt bitstream.length hpos
  by_cases hzero : bitstream.length % packetSize = 0
  · have hfill := imageChecksum_fill heven 0
    simp only [Nat.mul_zero, Nat.zero_mul, Nat.add_zero] at hfill
    rw [if_neg (by omega), ← hfill, paddedImage, hzero, Nat.sub_zero, Nat.mod_self]
  · have hbytes : (packetSize - bitstream.length % packetSize) % packetSize =
        2 * ((packetSize - bitstream.length % packetSize) / 2) := by
      rw [Nat.mod_eq_of_lt (by omega)]
      omega
    rw [if_pos hzero, ← imageChecksum_fill heven, paddedImage, hbytes]

/-- Half a packet of padding -/
theorem calculateChecksumUsingBitstream_eq_halfPacket :
    calculateChecksumUsingBitstream [0x12, 0x34] 4 =
      some (imageChecksum (paddedImage [0x12, 0x34] 4)) ∧
      IsLeast {m | 2 ≤ m ∧ 4 ∣ m} (paddedImage [0x12, 0x34] 4).length :=
  calculateChecksumUsingBitstream_eq rfl (by decide) rfl

end MlibDevel.Toolflow
