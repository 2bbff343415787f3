import Mathlib.Data.List.Sort
import Mathlib.Data.Prod.Lex
import MlibDevel.Jam.Bytes

/-!
# From `core_info.tab` to a CSL (`cit2csl.py`)

The script reads a table of lines `dev mode offset length [typecode]`, sorts it and writes the
compact sorted list that `csl.c` searches.  Every way in which it can raise (a missing field, a
number that does not parse, a value `struct.pack` refuses) is a `none` here.

Text is ASCII, so one character is one byte and `encode('utf-8')` changes nothing.
-/

namespace MlibDevel.Jam

/-! ## Reading the table -/

/-- What `str.split()` splits at, among the ASCII characters. -/
def isPySpace (c : UInt8) : Bool := (9 ≤ c && c ≤ 13) || (28 ≤ c && c ≤ 32)

/-- `line.split()` -/
def splitWords (line : List UInt8) : List (List UInt8) :=
  (line.splitOnP isPySpace).filter (· ≠ [])

/-- Text mode reads `\r\n` and `\r` as `\n`. -/
def universalNewlines : List UInt8 → List UInt8
  | [] => []
  | 13 :: 10 :: rest => 10 :: universalNewlines rest
  | c :: rest => (if c = 13 then 10 else c) :: universalNewlines rest

/-- Nothing stands behind a final line break. -/
def dropEmptyLast (pieces : List (List UInt8)) : List (List UInt8) :=
  if pieces.getLast? = some [] then pieces.dropLast else pieces

/-- The lines of a text, without their newlines.  A last line need not have one. -/
def readLines (text : List UInt8) : List (List UInt8) :=
  dropEmptyLast ((universalNewlines text).splitOn 10)

/-- Value of a hexadecimal digit. -/
def hexValue (c : UInt8) : Option Nat :=
  if 48 ≤ c ∧ c ≤ 57 then some (c.toNat - 48)
  else if 97 ≤ c ∧ c ≤ 102 then some (c.toNat - 87)
  else if 65 ≤ c ∧ c ≤ 70 then some (c.toNat - 55)
  else none

/-- Hexadecimal digits with single underscores between them. -/
def parseDigits (acc : Nat) : List UInt8 → Option Nat
  | [] => some acc
  | 95 :: c :: rest =>
    match hexValue c with
    | none => none
    | some d => parseDigits (acc * 16 + d) rest
  | c :: rest =>
    match hexValue c with
    | none => none
    | some d => parseDigits (acc * 16 + d) rest

/-- `int(s, 16)` without its sign: an optional `0x`, then at least one digit. -/
def parseMagnitude : List UInt8 → Option Nat
  | [] => none
  | 95 :: _ => none
  | 48 :: 120 :: c :: rest => parseDigits 0 (c :: rest)
  | 48 :: 88 :: c :: rest => parseDigits 0 (c :: rest)
  | c :: rest => parseDigits 0 (c :: rest)

/-- `int(s, 16)` -/
def pyIntHex : List UInt8 → Option Int
  | 45 :: rest => (parseMagnitude rest).map fun n => -(n : Int)
  | 43 :: rest => (parseMagnitude rest).map Int.ofNat
  | s => (parseMagnitude s).map Int.ofNat

/-- A parsed table line, `[dev, [offset, length, typecode]]`. -/
structure Line where
  dev : List UInt8
  offset : Int
  length : Int
  typecode : Int
deriving DecidableEq, Repr

/-- `offset |= 1` -/
def orOne (n : Int) : Int := if n % 2 = 0 then n + 1 else n

/-- A missing type defaults to 0 (register). -/
def parseTypecode : List (List UInt8) → Option Int
  | [] => some 0
  | typecode :: _ => pyIntHex typecode

/-- One round of the reading loop. -/
def parseLine (line : List UInt8) : Option Line :=
  match splitWords line with
  | dev :: mode :: offset :: length :: rest => do
    let offset ← pyIntHex offset
    -- a read-only device is marked in the low bit of its offset
    let offset := if mode = [49] then orOne offset else offset
    let length ← pyIntHex length
    let typecode ← parseTypecode rest
    return { dev, offset, length, typecode }
  | _ => none

/-- The list `lines` the script builds. -/
def parseTable (text : List UInt8) : Option (List Line) := (readLines text).mapM parseLine

/-- The pieces between separators contain no separator. -/
theorem not_sep_of_mem_splitOnP {p : UInt8 → Bool} : ∀ {l piece : List UInt8} {c : UInt8},
    piece ∈ l.splitOnP p → c ∈ piece → p c = false
  | [], piece, c, hp, hc => by
    simp only [List.splitOnP_nil, List.mem_singleton] at hp
    subst hp; simp at hc
  | x :: l, piece, c, hp, hc => by
    rw [List.splitOnP_cons_eq_if_modifyHead] at hp
    split at hp
    · rcases List.mem_cons.mp hp with rfl | hp
      · simp at hc
      · exact not_sep_of_mem_splitOnP hp hc
    · next hx =>
      obtain ⟨first, others, hl⟩ := List.exists_cons_of_ne_nil (List.splitOnP_ne_nil p l)
      rw [hl, List.modifyHead_cons, List.mem_cons] at hp
      rcases hp with rfl | hp
      · rcases List.mem_cons.mp hc with rfl | hc
        · simpa using hx
        · exact not_sep_of_mem_splitOnP (by rw [hl]; simp) hc
      · exact not_sep_of_mem_splitOnP (by rw [hl]; simp [hp]) hc

/-- A word is not empty and holds no white space. -/
theorem word_of_mem_splitWords {line w : List UInt8} (h : w ∈ splitWords line) :
    w ≠ [] ∧ ∀ c ∈ w, isPySpace c = false := by
  simp only [splitWords, List.mem_filter, decide_eq_true_eq] at h
  exact ⟨h.2, fun c hc => not_sep_of_mem_splitOnP h.1 hc⟩

/-- The device name of a parsed line is its first word. -/
theorem parseLine_eq_some {line : List UInt8} {l : Line} (h : parseLine line = some l) :
    ∃ rest, splitWords line = l.dev :: rest := by
  unfold parseLine at h
  split at h
  · next dev mode offset length rest hw =>
    simp only [Option.bind_eq_bind, Option.bind_eq_some_iff, Option.pure_def,
      Option.some.injEq] at h
    obtain ⟨_, _, _, _, _, _, rfl⟩ := h
    exact ⟨_, hw⟩
  · simp at h

/-- A device name of a parsed table is a word. -/
theorem parseTable_word {text : List UInt8} {lines : List Line} (h : parseTable text = some lines)
    {l : Line} (hl : l ∈ lines) : l.dev ≠ [] ∧ ∀ c ∈ l.dev, isPySpace c = false := by
  obtain ⟨line, _, hp⟩ : ∃ line ∈ readLines text, parseLine line = some l := by
    unfold parseTable at h
    generalize readLines text = ls at h
    induction ls generalizing lines with
    | nil =>
      simp only [List.mapM_nil, Option.pure_def, Option.some.injEq] at h
      subst h; simp at hl
    | cons a ls ih =>
      simp only [List.mapM_cons, Option.bind_eq_bind, Option.bind_eq_some_iff, Option.pure_def,
        Option.some.injEq] at h
      obtain ⟨l', hl', ls', hls', rfl⟩ := h
      rcases List.mem_cons.mp hl with rfl | hl
      · exact ⟨a, by simp, hl'⟩
      · obtain ⟨line, hmem, hp⟩ := ih hl hls'
        exact ⟨line, List.mem_cons_of_mem _ hmem, hp⟩
  obtain ⟨rest, hw⟩ := parseLine_eq_some hp
  exact word_of_mem_splitWords (by rw [hw]; exact List.mem_cons_self)

/-! ## Sorting -/

/-- Python compares the nested lists lexicographically. -/
def Line.key (l : Line) : List UInt8 ×ₗ ℤ ×ₗ ℤ ×ₗ ℤ :=
  toLex (l.dev, toLex (l.offset, toLex (l.length, l.typecode)))

instance : LE Line := ⟨fun a b => a.key ≤ b.key⟩

instance (a b : Line) : Decidable (a ≤ b) := inferInstanceAs (Decidable (a.key ≤ b.key))

instance : Std.Total (α := Line) (· ≤ ·) := ⟨fun a b => le_total a.key b.key⟩

instance : IsTrans Line (· ≤ ·) := ⟨fun a b c => le_trans (a := a.key) (b := b.key) (c := c.key)⟩

/-- Lines in order have their names in order. -/
theorem Line.dev_le_of_le {a b : Line} (h : a ≤ b) : a.dev ≤ b.dev := by
  rcases Prod.Lex.le_iff.mp (show a.key ≤ b.key from h) with h | h
  · exact le_of_lt h
  · exact le_of_eq h.1

/-- `lines.sort()` -/
def sortLines (lines : List Line) : List Line := lines.insertionSort (· ≤ ·)

/-! ## The encoding loop -/

/-- `payload_length` -/
def payloadLength : Nat := 9

/-- `struct.pack('>B', n)` -/
def packB (n : Int) : Option (List UInt8) :=
  if 0 ≤ n ∧ n < 256 then some [UInt8.ofNat n.toNat] else none

/-- `struct.pack('>I', n)` -/
def packI (n : Int) : Option (List UInt8) :=
  if 0 ≤ n ∧ n < 2 ^ 32 then some (be32 n.toNat) else none

/-- `struct.pack('>H', n)` -/
def packH (n : Int) : Option (List UInt8) :=
  if 0 ≤ n ∧ n < 2 ^ 16 then some [UInt8.ofNat (n.toNat / 256), UInt8.ofNat n.toNat] else none

/-- The payload fields of an entry, `>IIB`. -/
def packPayload (l : Line) : Option (List UInt8) := do
  let offset ← packI l.offset
  let length ← packI l.length
  let typecode ← packB l.typecode
  return offset ++ length ++ typecode

/-- How many leading characters `dev` reuses from `prev`: the first index where they differ. -/
def reuse (prev dev : List UInt8) : Nat :=
  let n := min prev.length dev.length
  ((List.range n).find? fun i => prev[i]? ≠ dev[i]?).getD n

/-- The loop over the sorted lines.  `csl` is what has been written so far. -/
def encodeLoop (csl prev : List UInt8) : List Line → Option (List UInt8)
  | [] => some csl
  | l :: rest => do
    let tail := l.dev.drop (reuse prev l.dev)
    -- the first entry's head size field holds the payload length
    let head := if csl.length = 0 then payloadLength else reuse prev l.dev
    let head ← packB head
    let ntail ← packB tail.length
    let payload ← packPayload l
    encodeLoop (csl ++ (head ++ ntail ++ tail ++ payload)) l.dev rest

/-- The list itself: the sorted lines, front-coded, and the terminator. -/
def encodeCsl (lines : List Line) : Option (List UInt8) := do
  let csl ← encodeLoop [] [] (sortLines lines)
  return csl ++ [0, 0]

/-- The whole script on a table: the list behind its length. -/
def cit2csl (text : List UInt8) : Option (List UInt8) := do
  let lines ← parseTable text
  let csl ← encodeCsl lines
  let size ← packH csl.length
  return size ++ csl

theorem cit2csl_eq {text csl : List UInt8} {lines : List Line}
    (hlines : parseTable text = some lines) (hcsl : encodeCsl lines = some csl) :
    cit2csl text = (packH csl.length).map (· ++ csl) := by
  unfold cit2csl
  rw [hlines, Option.bind_eq_bind, Option.bind_some, hcsl, Option.bind_eq_bind, Option.bind_some,
    Option.map_eq_bind]
  rfl

end MlibDevel.Jam
