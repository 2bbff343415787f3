import Mathlib.Data.List.DropRight
import Mathlib.Data.List.Infix
import MlibDevel.CasperLibrary.BitReverse

/-!
# A `.bin` file from a `.bit` file (`make_fpg.py`)

The header of a `.bit` file is left out, up to the first 32 bytes `0xff`, and the bits of each byte
are reversed if wanted.

White space at the end of the file is taken for the end of a text, although it may be a part of the
bitstream.

Main result: `makeBin_eq_iff` (which files are converted rightly).
-/

namespace MlibDevel.Toolflow

open CasperLibrary

/-! ## The conversion -/

/-- What `rstrip` removes from `bytes`. -/
def isBytesSpace (c : UInt8) : Bool := c = 32 || (9 ≤ c && c ≤ 13)

/-- The bin file header identifier, `'\xff' * 32` -/
def headerIdentifier : List UInt8 := List.replicate 32 0xff

/-- `data.find(sub)` -/
def find (data sub : List UInt8) : Option Nat :=
  (List.range (data.length + 1)).find? fun i => sub.isPrefixOf (data.drop i)

/-- `'{:08b}'.format` -/
def formatBits (byte : Nat) : List Char :=
  (List.range 8).reverse.map fun i => if byte.testBit i then '1' else '0'

/-- `int(bits, 2)` -/
def intBase2 (bits : List Char) : Nat := bits.foldl (fun n c => 2 * n + if c = '1' then 1 else 0) 0

/-- The body of the loop: the bits of a byte are reversed. -/
def flipByte (byte : UInt8) : UInt8 := UInt8.ofNat (intBase2 (formatBits byte.toNat).reverse)

/-- `make_bin`, for the contents of the two files.  Without an identifier the last byte is left. -/
def makeBin (contents : List UInt8) (reverseBits : Bool) : List UInt8 :=
  let data := contents.rdropWhile isBytesSpace
  let data := match find data headerIdentifier with
    | some headerEndIndex => data.drop headerEndIndex
    | none => data.drop (data.length - 1)
  if reverseBits then data.map flipByte else data

/-! ## The bytes -/

/-- The digits in reverse are the bits in reverse. -/
theorem intBase2_formatBits (n : Nat) : ∀ k,
    intBase2 ((List.range k).map fun i => if n.testBit i then '1' else '0') = bitReverse n k
  | 0 => rfl
  | k + 1 => by
    have hdigit : (if (if n.testBit k then '1' else '0') = '1' then 1 else 0) =
        (n.testBit k).toNat := by
      cases n.testBit k <;> rfl
    rw [bitReverse_succ, ← intBase2_formatBits n k, ← hdigit]
    simp [intBase2, List.range_succ]

theorem toNat_flipByte (b : UInt8) : (flipByte b).toNat = bitReverse b.toNat 8 := by
  have hbits : (formatBits b.toNat).reverse = (List.range 8).map fun i => if b.toNat.testBit i
      then '1' else '0' := by
    rw [formatBits, ← List.map_reverse, List.reverse_reverse]
  rw [flipByte, hbits, intBase2_formatBits, UInt8.toNat_ofNat_of_lt' (bitReverse_lt b.toNat 8)]

/-- **Reversing the bits twice gives the byte.** -/
theorem flipByte_flipByte (b : UInt8) : flipByte (flipByte b) = b := by
  rw [← UInt8.toNat_inj, toNat_flipByte, toNat_flipByte, bitReverse_bitReverse b.toNat_lt]

theorem map_flipByte_map_flipByte (bs : List UInt8) : (bs.map flipByte).map flipByte = bs := by
  rw [List.map_map]
  exact (List.map_congr_left fun b _ => flipByte_flipByte b).trans (List.map_id bs)

/-! ## What is left out -/

/-- Only what follows the last other byte is removed. -/
theorem rdropWhile_append_cons {α : Type} {p : α → Bool} {x : α} (hx : ¬p x = true)
    (before after : List α) :
    (before ++ x :: after).rdropWhile p = before ++ x :: after.rdropWhile p := by
  induction after using List.reverseRecOn with
  | nil => rw [List.rdropWhile_concat_neg p before x hx, List.rdropWhile_nil]
  | append_singleton after y ih =>
    rw [← List.cons_append, ← List.append_assoc, List.rdropWhile_concat, List.rdropWhile_concat, ih]
    split
    · rfl
    · simp

/-- The identifier is not removed, nor what comes before it. -/
theorem rstrip_contents (header rest : List UInt8) :
    (header ++ (headerIdentifier ++ rest)).rdropWhile isBytesSpace =
      header ++ (headerIdentifier ++ rest.rdropWhile isBytesSpace) := by
  have hcons : ∀ r : List UInt8, header ++ (headerIdentifier ++ r) =
      (header ++ List.replicate 31 0xff) ++ 0xff :: r := by
    intro r
    rw [List.append_assoc]
    rfl
  rw [hcons, hcons, rdropWhile_append_cons (by decide)]

/-- An identifier that begins in the header ends in it, or the header ends with `0xff`. -/
theorem not_prefix_drop {header s : List UInt8} (hheader : ¬headerIdentifier <:+: header)
    (hlast : header.getLast? ≠ some 0xff) {i : Nat} (hi : i < header.length) :
    ¬headerIdentifier <+: (header ++ s).drop i := by
  intro hprefix
  rw [List.drop_append_of_le_length (Nat.le_of_lt hi)] at hprefix
  have hdrop : header.drop i <+: header.drop i ++ s := List.prefix_append _ _
  rcases Nat.le_total headerIdentifier.length (header.drop i).length with hle | hle
  · have hin := List.prefix_of_prefix_length_le hprefix hdrop hle
    exact hheader (hin.isInfix.trans (List.drop_suffix i header).isInfix)
  · have hin := List.prefix_of_prefix_length_le hdrop hprefix hle
    have hends : (header.drop i).getLast? = header.getLast? := by
      rw [List.getLast?_drop, if_neg (Nat.not_le_of_lt hi)]
    cases hbyte : header.getLast? with
    | none =>
      rw [List.getLast?_eq_none_iff] at hbyte
      rw [hbyte] at hi
      exact Nat.not_lt_zero _ hi
    | some b =>
      have hmem := hin.subset (List.mem_of_getLast? (hends.trans hbyte))
      rw [hbyte, List.eq_of_mem_replicate hmem] at hlast
      exact hlast rfl

/-- The first place is found. -/
theorem find_le {data sub : List UInt8} {k : Nat} (hk : k ≤ data.length)
    (hsub : sub <+: data.drop k) : ∃ i ≤ k, find data sub = some i ∧ sub <+: data.drop i := by
  have hthere : sub.isPrefixOf (data.drop k) = true := List.isPrefixOf_iff_prefix.mpr hsub
  cases hfind : find data sub with
  | none =>
    have hnone := List.find?_range_eq_none.mp hfind k (Nat.lt_succ_of_le hk)
    rw [hthere] at hnone
    nomatch hnone
  | some i =>
    obtain ⟨hhere, -, hfirst⟩ := List.find?_range_eq_some.mp hfind
    refine ⟨i, ?_, rfl, List.isPrefixOf_iff_prefix.mp hhere⟩
    by_contra hlater
    have hno := hfirst k (Nat.lt_of_not_le hlater)
    rw [hthere] at hno
    nomatch hno

/-- The identifier is found where the header ends, unless the header ends with a byte of it. -/
theorem find_contents {header rest : List UInt8} (hheader : ¬headerIdentifier <:+: header) :
    ∃ i ≤ header.length, find (header ++ (headerIdentifier ++ rest)) headerIdentifier = some i ∧
      (i = header.length ↔ header.getLast? ≠ some 0xff) := by
  have hlen : header.length ≤ (header ++ (headerIdentifier ++ rest)).length := by simp
  have hstart : headerIdentifier <+: (header ++ (headerIdentifier ++ rest)).drop header.length := by
    rw [List.drop_left]
    exact List.prefix_append _ _
  obtain ⟨i, hi, hfind, hprefix⟩ := find_le hlen hstart
  refine ⟨i, hi, hfind, fun heq hlast => ?_, fun hlast => ?_⟩
  · -- one byte before the end of the header the identifier can be read too
    obtain ⟨h, rfl⟩ := List.getLast?_eq_some_iff.mp hlast
    have hearlier : headerIdentifier <+: (h ++ [0xff] ++ (headerIdentifier ++ rest)).drop
        h.length := by
      rw [List.append_assoc, List.drop_left]
      exact ⟨0xff :: rest, rfl⟩
    obtain ⟨j, hj, hfind', -⟩ := find_le (by simp) hearlier
    rw [hfind, Option.some_inj] at hfind'
    rw [List.length_append, List.length_singleton] at heq
    omega
  · by_contra hne
    exact not_prefix_drop hheader hlast (Nat.lt_of_le_of_ne hi hne) hprefix

/-- The bitstream is what comes from `i` on if it begins there and nothing of it was removed. -/
theorem drop_eq_iff {header rest : List UInt8} {i : Nat} (hi : i ≤ header.length) :
    (header ++ (headerIdentifier ++ rest.rdropWhile isBytesSpace)).drop i =
      headerIdentifier ++ rest ↔
      i = header.length ∧ rest.rdropWhile isBytesSpace = rest := by
  rw [List.drop_append_of_le_length hi]
  constructor
  · intro heq
    -- what is left ends with no white space, so the bitstream does not either
    have hstrip := congrArg (List.rdropWhile isBytesSpace) heq
    have hrest := rstrip_contents [] rest
    rw [List.nil_append, List.nil_append] at hrest
    rw [rstrip_contents, List.rdropWhile_idempotent, hrest, List.append_left_eq_self,
      List.drop_eq_nil_iff] at hstrip
    have hend : i = header.length := Nat.le_antisymm hi hstrip
    rw [hend, List.drop_length, List.nil_append, List.append_cancel_left_eq] at heq
    exact ⟨hend, heq⟩
  · rintro ⟨rfl, hrest⟩
    rw [List.drop_length, List.nil_append, hrest]

/-- Nothing of a bitstream is removed if it does not end with white space. -/
theorem rdropWhile_eq_iff (rest : List UInt8) :
    rest.rdropWhile isBytesSpace = rest ↔
      ∀ b, (headerIdentifier ++ rest).getLast? = some b → isBytesSpace b = false := by
  have hrest := rstrip_contents [] rest
  rw [List.nil_append, List.nil_append] at hrest
  rw [← List.append_right_inj headerIdentifier, ← hrest, List.rdropWhile_eq_self_iff]
  constructor
  · intro hlast b hb
    obtain ⟨before, hconcat⟩ := List.getLast?_eq_some_iff.mp hb
    have hno := hlast (by simp [hconcat])
    simpa [hconcat] using hno
  · intro hlast hne
    rw [hlast _ (List.getLast?_eq_some_getLast hne)]
    exact Bool.false_ne_true

/-! ## Which files are converted rightly -/

/-- **The bitstream is written if and only if the header does not end with a byte `0xff` and the
bitstream does not end with white space.** -/
theorem makeBin_eq_iff (header bitstream : List UInt8) (reverseBits : Bool)
    (hheader : ¬headerIdentifier <:+: header) (hstart : headerIdentifier <+: bitstream) :
    (makeBin (header ++ bitstream) reverseBits =
          (if reverseBits then bitstream.map flipByte else bitstream) ∧
        (makeBin (header ++ bitstream) reverseBits).length = bitstream.length ∧
        (bitstream.map flipByte).map flipByte = bitstream) ↔
      header.getLast? ≠ some 0xff ∧ ∀ b, bitstream.getLast? = some b → isBytesSpace b = false := by
  obtain ⟨rest, rfl⟩ := hstart
  have hinj : Function.Injective flipByte := Function.LeftInverse.injective flipByte_flipByte
  obtain ⟨i, hi, hfind, hend⟩ := @find_contents header (rest.rdropWhile isBytesSpace) hheader
  have hout : makeBin (header ++ (headerIdentifier ++ rest)) reverseBits =
        (if reverseBits then (headerIdentifier ++ rest).map flipByte
        else headerIdentifier ++ rest) ↔
      (header ++ (headerIdentifier ++ rest.rdropWhile isBytesSpace)).drop i =
      headerIdentifier ++ rest := by
    rw [makeBin, rstrip_contents, hfind]
    cases reverseBits with
    | false => rfl
    | true => exact (List.map_injective_iff.mpr hinj).eq_iff
  rw [← hend, ← rdropWhile_eq_iff, ← drop_eq_iff hi, ← hout]
  refine ⟨fun h => h.1, fun h => ⟨h, ?_, map_flipByte_map_flipByte _⟩⟩
  rw [h]
  split
  · rw [List.length_map]
  · rfl

/-- A bitstream of one byte after the identifier -/
theorem makeBin_eq_iff_oneByte :
    (makeBin ([0x09] ++ (headerIdentifier ++ [0xaa])) true =
          (headerIdentifier ++ [0xaa]).map flipByte ∧
        (makeBin ([0x09] ++ (headerIdentifier ++ [0xaa])) true).length = 33 ∧
        ((headerIdentifier ++ [0xaa]).map flipByte).map flipByte = headerIdentifier ++ [0xaa]) ↔
      ([0x09] : List UInt8).getLast? ≠ some 0xff ∧
        ∀ b, (headerIdentifier ++ [0xaa]).getLast? = some b → isBytesSpace b = false :=
  makeBin_eq_iff [0x09] (headerIdentifier ++ [0xaa]) true (by decide) (List.prefix_append _ _)

/-- A bitstream that ends with a line feed -/
theorem makeBin_strips : ¬∀ header bitstream reverseBits,
    ¬headerIdentifier <:+: header → headerIdentifier <+: bitstream →
    makeBin (header ++ bitstream) reverseBits =
      (if reverseBits then bitstream.map flipByte else bitstream) := by
  intro hall
  have hwritten :=
    hall [0x09] (headerIdentifier ++ [0x0a]) false (by decide) (List.prefix_append _ _)
  exact absurd (congrArg List.length hwritten) (by decide)

end MlibDevel.Toolflow
