import Mathlib.Algebra.Order.Field.Power
import Mathlib.Data.Rat.Floor
import MlibDevel.Lib.Words

/-!
# Packing columns into words (`doubles2unsigned.m`)

The values of each column are rounded, saturated and wrapped to the bits of the column.  The columns
are then packed from the last to the first, for all rows at once, and each word is stored when it is
full (`doubles2unsigned_words`).

Values are rationals; what is `uint64` is a natural, and shifted and added as such.
-/

namespace MlibDevel.CasperLibrary

open Lib

/-! ## Quantising -/

/-- `round`: to the nearest integer, and away from zero if there are two. -/
def roundAway (x : Rat) : Int := if x < 0 then -⌊-x + 1 / 2⌋ else ⌊x + 1 / 2⌋

/-- The value that is packed for one of a column with `nBits` bits. -/
def colInt (nBits : Nat) (binPt : Int) (x : Rat) : Rat :=
  let step : Rat := 2 ^ (-1 * binPt)
  let top := 2 ^ (nBits - binPt - 1) - step
  let bottom := -1 * 2 ^ (nBits - binPt - 1)
  let quantised := roundAway (x / step) * step
  let saturated := if quantised > top then top else quantised
  let saturated := if quantised < bottom then bottom else saturated
  let wrapped := if saturated < 0 then (top + step) * 2 + saturated else saturated
  2 ^ binPt * wrapped

/-- `uint64` of a double -/
def toU64 (x : Rat) : Nat := min (roundAway x).toNat (2 ^ 64 - 1)

/-- `bitshift` to the left -/
def shiftUp (a k : Nat) : Nat := (a <<< k) % 2 ^ 64

/-- The sum of two `uint64` saturates. -/
def addU64 (a b : Nat) : Nat := min (a + b) (2 ^ 64 - 1)

/-! ## Packing -/

/-- Why there is no result. -/
inductive D2uError
  | error (message : String)
  | subscript
  | endless
  deriving DecidableEq, Repr

/-- The variables of the loops, for `r` rows. -/
structure Packer (r : Nat) where
  bits : Nat
  word : Fin r → Nat
  raw : Fin r → Nat
  rawBits : Nat
  colsShifted : List (Fin r → Nat)
  wordCount : Nat

namespace Packer

variable {r : Nat} (maxWordSize : Nat)

/-- `cols_shifted(:, dest) = word`, with `dest` counted from the last word. -/
def store (s : Packer r) (word : Fin r → Nat) : Except D2uError (List (Fin r → Nat)) :=
  let wordsRequired := s.colsShifted.length
  if s.wordCount < wordsRequired then
    .ok (s.colsShifted.set (wordsRequired - s.wordCount - 1) word)
  else .error .subscript

/-- The word is filled and stored. -/
def fill (s : Packer r) : Except D2uError (Packer r) := do
  let safe := maxWordSize - s.bits
  let extra := s.rawBits - safe
  let word := fun i => addU64 (s.word i) (shiftUp (s.raw i &&& (2 ^ safe - 1)) s.bits)
  let colsShifted ← s.store word
  return {
    bits := 0
    word := fun _ => 0
    raw := if extra > 0 then fun i => (s.raw i >>> safe) &&& (2 ^ extra - 1) else s.raw
    rawBits := extra
    colsShifted := colsShifted
    wordCount := s.wordCount + 1 }

/-- The bits that are left do not fill the word. -/
def tag (s : Packer r) : Packer r :=
  { s with
    word := fun i => addU64 (shiftUp (s.raw i) s.bits) (s.word i)
    bits := s.bits + s.rawBits
    rawBits := 0 }

/-- A pass of the `while` loop. -/
def pass (s : Packer r) : Except D2uError (Packer r) := do
  let s ← if s.bits + s.rawBits ≥ maxWordSize then s.fill maxWordSize else pure s
  return if s.rawBits > 0 ∧ s.bits + s.rawBits < maxWordSize then s.tag else s

/-- The `while` loop, with at most `fuel` passes. -/
def loop : Nat → Packer r → Except D2uError (Packer r)
  | 0, s => if s.rawBits > 0 then .error .endless else .ok s
  | fuel + 1, s => if s.rawBits > 0 then do loop fuel (← s.pass maxWordSize) else .ok s

/-- A pass of the `for` loop: a column of `nBits` bits, one of which at least goes with each
pass. -/
def column (s : Packer r) (nBits : Nat) (col : Fin r → Nat) : Except D2uError (Packer r) :=
  loop maxWordSize nBits { s with raw := col, rawBits := nBits }

end Packer

/-- One value for all `c` columns is fluffed out. -/
def fluffOut {α : Type} (c : Nat) : List α → List α
  | [value] => List.replicate c value
  | values => values

/-- The part of `doubles2unsigned` from `words_required` on. -/
def packColumns {r c : Nat} (colsU64 : Fin c → Fin r → Nat) (nBits : List Nat) (maxWordSize : Nat) :
    Except D2uError (List (Fin r → Nat)) := do
  let wordsRequired := (nBits.sum + maxWordSize - 1) / maxWordSize
  let start : Packer r :=
    { bits := 0
      word := fun _ => 0
      raw := fun _ => 0
      rawBits := 0
      colsShifted := List.replicate wordsRequired fun _ => 0
      wordCount := 0 }
  let s ← (List.finRange c).reverse.foldlM
    (fun s k => s.column maxWordSize (nBits.getD k 0) (colsU64 k)) start
  if s.bits ≠ 0 then s.store s.word else .ok s.colsShifted

/-- `doubles2unsigned`, with the words of a row from the first to the last. -/
def doubles2unsigned {r c : Nat} (din : Fin r → Fin c → Rat) (nBits : List Nat) (binPt : List Int)
    (maxWordSize : Nat) : Except D2uError (List (Fin r → Nat)) :=
  if nBits.length ≠ binPt.length then
    .error (.error "Number of bits and binary point vectors must be the same dimensions")
  else
    let nBits := fluffOut c nBits
    let binPt := fluffOut c binPt
    if maxWordSize > 64 then .error (.error "We can't generate a bit width greater than 64 bits")
    else if nBits.length < c then .error .subscript
    else
      let colsU64 := fun (k : Fin c) i => toU64 (colInt (nBits.getD k 0) (binPt.getD k 0) (din i k))
      packColumns colsU64 nBits maxWordSize

/-! ## What is packed -/

/-- An integer in the signed range of `nBits` bits, or its nearest end. -/
def saturate (nBits : Nat) (q : Int) : Int :=
  if q < -2 ^ (nBits - 1) then -2 ^ (nBits - 1)
  else if q > 2 ^ (nBits - 1) - 1 then 2 ^ (nBits - 1) - 1
  else q

/-- The two's complement of a value, rounded to the binary point and saturated. -/
def encoding (nBits : Nat) (binPt : Int) (x : Rat) : Nat :=
  (saturate nBits (roundAway (x * 2 ^ binPt)) % 2 ^ nBits).toNat

theorem saturate_range (nBits : Nat) (q : Int) :
    -2 ^ (nBits - 1) ≤ saturate nBits q ∧ saturate nBits q < 2 ^ (nBits - 1) := by
  have hpos : (0 : Int) < 2 ^ (nBits - 1) := by positivity
  unfold saturate
  split
  · omega
  · split <;> omega

section Quantise

variable {nBits : Nat} (h : 1 ≤ nBits)

include h

theorem two_mul_half : (2 : Int) ^ nBits = 2 * 2 ^ (nBits - 1) := by
  rw [← pow_succ', Nat.sub_add_cancel h]

/-- A negative integer is wrapped. -/
theorem encoding_eq (binPt : Int) (x : Rat) : (encoding nBits binPt x : Int)
    = if saturate nBits (roundAway (x * 2 ^ binPt)) < 0
      then 2 ^ nBits + saturate nBits (roundAway (x * 2 ^ binPt))
      else saturate nBits (roundAway (x * 2 ^ binPt)) := by
  obtain ⟨hlo, hhi⟩ := saturate_range nBits (roundAway (x * 2 ^ binPt))
  have htwo := two_mul_half h
  rw [encoding]
  generalize saturate nBits (roundAway (x * 2 ^ binPt)) = t at *
  split
  · rw [Int.emod_eq_add_self_emod, Int.emod_eq_of_lt (by omega) (by omega),
      Int.toNat_of_nonneg (by omega), Int.add_comm]
  · rw [Int.emod_eq_of_lt (by omega) (by omega), Int.toNat_of_nonneg (by omega)]

theorem encoding_lt (binPt : Int) (x : Rat) : encoding nBits binPt x < 2 ^ nBits := by
  obtain ⟨hlo, hhi⟩ := saturate_range nBits (roundAway (x * 2 ^ binPt))
  have htwo := two_mul_half h
  have hvalue := encoding_eq h binPt x
  have hcast : ((encoding nBits binPt x : Nat) : Int) < ((2 ^ nBits : Nat) : Int) := by
    rw [Nat.cast_pow, Nat.cast_ofNat, hvalue]
    split <;> omega
  exact Nat.cast_lt.mp hcast

/-- What is packed for a value is its encoding. -/
theorem colInt_eq (binPt : Int) (x : Rat) : colInt nBits binPt x = encoding nBits binPt x := by
  have hS : (0 : Rat) < 2 ^ binPt := zpow_pos two_pos _
  have hstep : (2 : Rat) ^ (-1 * binPt) = (2 ^ binPt)⁻¹ := by rw [neg_one_mul, zpow_neg]
  have hhalf : (2 : Rat) ^ (nBits - binPt - 1) = (2 ^ (nBits - 1) : Int) * (2 ^ binPt)⁻¹ := by
    rw [show (nBits - binPt - 1 : Int) = ((nBits - 1 : Nat) : Int) - binPt by omega,
      zpow_sub₀ two_ne_zero, zpow_natCast, div_eq_mul_inv]
    push_cast
    rfl
  have hvalue := encoding_eq h binPt x
  have htwo := two_mul_half h
  have hless : ∀ a b : Int, (a : Rat) * (2 ^ binPt)⁻¹ < b * (2 ^ binPt)⁻¹ ↔ a < b := by
    intro a b
    rw [mul_lt_mul_iff_left₀ (inv_pos.mpr hS), Int.cast_lt]
  have htop : (2 : Rat) ^ (nBits - binPt - 1) - (2 ^ binPt)⁻¹
      = ((2 ^ (nBits - 1) - 1 : Int) : Rat) * (2 ^ binPt)⁻¹ := by
    rw [hhalf, Int.cast_sub, Int.cast_one, sub_mul, one_mul]
  have hbottom : -1 * (2 : Rat) ^ (nBits - binPt - 1)
      = ((-2 ^ (nBits - 1) : Int) : Rat) * (2 ^ binPt)⁻¹ := by
    rw [hhalf, Int.cast_neg, neg_one_mul, neg_mul]
  unfold colInt
  dsimp only
  rw [hstep, div_inv_eq_mul, htop, hbottom]
  generalize roundAway (x * 2 ^ binPt) = q at *
  have hsaturated : (if (q : Rat) * (2 ^ binPt)⁻¹ < ((-2 ^ (nBits - 1) : Int) : Rat) * (2 ^ binPt)⁻¹
      then ((-2 ^ (nBits - 1) : Int) : Rat) * (2 ^ binPt)⁻¹
      else if (q : Rat) * (2 ^ binPt)⁻¹ > ((2 ^ (nBits - 1) - 1 : Int) : Rat) * (2 ^ binPt)⁻¹
        then ((2 ^ (nBits - 1) - 1 : Int) : Rat) * (2 ^ binPt)⁻¹ else (q : Rat) * (2 ^ binPt)⁻¹)
      = ((saturate nBits q : Int) : Rat) * (2 ^ binPt)⁻¹ := by
    simp only [gt_iff_lt, hless]
    unfold saturate
    split
    · rfl
    · split <;> rfl
  rw [hsaturated]
  generalize saturate nBits q = t at *
  have hzero : (t : Rat) * (2 ^ binPt)⁻¹ < 0 ↔ t < 0 := by
    have h0 := hless t 0
    rwa [Int.cast_zero, zero_mul] at h0
  have hcast : (encoding nBits binPt x : Rat) = ((encoding nBits binPt x : Int) : Rat) :=
    (Int.cast_natCast _).symm
  have hcancel : ∀ y : Rat, 2 ^ binPt * (y * (2 ^ binPt)⁻¹) = y := by
    intro y
    rw [mul_comm, mul_assoc, inv_mul_cancel₀ (ne_of_gt hS), mul_one]
  rw [hcast, hvalue]
  by_cases hneg : t < 0
  · rw [if_pos (hzero.mpr hneg), if_pos hneg]
    have hsum : (((2 ^ (nBits - 1) - 1 : Int) : Rat) * (2 ^ binPt)⁻¹ + (2 ^ binPt)⁻¹) * 2
        + (t : Rat) * (2 ^ binPt)⁻¹ = ((2 ^ nBits + t : Int) : Rat) * (2 ^ binPt)⁻¹ := by
      rw [htwo]
      push_cast
      ring
    rw [hsum, hcancel]
  · rw [if_neg (mt hzero.mp hneg), if_neg hneg, hcancel]

end Quantise

theorem roundAway_natCast (n : Nat) : roundAway (n : Rat) = n := by
  have hfloor : ⌊(n : Rat) + 1 / 2⌋ = n := by
    rw [Int.floor_eq_iff]
    constructor <;> norm_num
  rw [roundAway, if_neg (not_lt.mpr (Nat.cast_nonneg n)), hfloor]

/-- A column of at most 52 bits is kept by `uint64`. -/
theorem toU64_colInt {nBits : Nat} (h : 1 ≤ nBits) (hle : nBits ≤ 52) (binPt : Int) (x : Rat) :
    toU64 (colInt nBits binPt x) = encoding nBits binPt x := by
  have hlt := encoding_lt h binPt x
  have hpow : 2 ^ nBits ≤ 2 ^ 52 := Nat.pow_le_pow_right two_pos hle
  rw [toU64, colInt_eq h, roundAway_natCast, Int.toNat_natCast]
  exact Nat.min_eq_left (by omega)

/-! ## The invariant of the loops -/

namespace Packer

variable {r m W L : Nat} {s : Packer r} {low : Fin r → Nat}

/-- The `L` least significant bits `low` of each row are in the words stored and in the current
one. -/
structure Packed (m W L : Nat) (low : Fin r → Nat) (s : Packer r) : Prop where
  lt : ∀ i, low i < 2 ^ L
  bits : s.bits = L % m
  word : ∀ i, s.word i = low i / 2 ^ (m * (L / m))
  wordCount : s.wordCount = L / m
  length : s.colsShifted.length = W
  stored : ∀ j < L / m, ∀ i, (s.colsShifted[W - 1 - j]?.map fun w => w i) =
    some (wordOf m (low i) j)

/-- Numbers below the size of a word are added and shifted as such. -/
theorem addU64_eq {a b : Nat} (h : a + b < 2 ^ m) (hm : m ≤ 64) : addU64 a b = a + b := by
  have hpow : 2 ^ m ≤ 2 ^ 64 := Nat.pow_le_pow_right two_pos hm
  exact Nat.min_eq_left (by omega)

theorem shiftUp_eq {a k : Nat} (h : a * 2 ^ k < 2 ^ m) (hm : m ≤ 64) : shiftUp a k = a * 2 ^ k := by
  have hpow : 2 ^ m ≤ 2 ^ 64 := Nat.pow_le_pow_right two_pos hm
  rw [shiftUp, Nat.shiftLeft_eq, Nat.mod_eq_of_lt (by omega)]

theorem pow_split (m L : Nat) : 2 ^ L = 2 ^ (m * (L / m)) * 2 ^ (L % m) := by
  rw [← Nat.pow_add, Nat.div_add_mod]

/-- More bits in the current word. -/
theorem add_div_current (m L x v : Nat) :
    (x + v * 2 ^ L) / 2 ^ (m * (L / m)) = x / 2 ^ (m * (L / m)) + v * 2 ^ (L % m) := by
  have hsplit : x + v * 2 ^ L = x + 2 ^ (m * (L / m)) * (v * 2 ^ (L % m)) := by
    rw [pow_split m L]
    ring
  rw [hsplit, Nat.add_mul_div_left _ _ (Nat.two_pow_pos _)]

/-- The current word has as many bits as are counted. -/
theorem div_current_lt {x : Nat} (h : x < 2 ^ L) (m : Nat) :
    x / 2 ^ (m * (L / m)) < 2 ^ (L % m) := by
  apply Nat.div_lt_of_lt_mul
  rwa [← pow_split]

theorem add_shifted_lt {x v k n : Nat} (hx : x < 2 ^ n) (hv : v < 2 ^ k) :
    x + v * 2 ^ n < 2 ^ (n + k) := by
  have hle : (v + 1) * 2 ^ n ≤ 2 ^ k * 2 ^ n := Nat.mul_le_mul_right _ hv
  rw [Nat.pow_add, Nat.mul_comm (2 ^ n)]
  rw [Nat.add_mul, Nat.one_mul] at hle
  omega

/-- The words before the current one keep their bits. -/
theorem wordOf_below {j : Nat} (hj : j < L / m) (x v : Nat) :
    wordOf m (x + v * 2 ^ L) j = wordOf m x j := by
  apply wordOf_add
  have hle : m * (j + 1) ≤ m * (L / m) := Nat.mul_le_mul_left m hj
  have hdiv := Nat.mul_div_le L m
  rw [Nat.mul_succ] at hle
  omega

/-- The bits that are left go into the current word. -/
theorem Packed.tag (h : Packed m W L low s) (hm : m ≤ 64) (hraw : ∀ i, s.raw i < 2 ^ s.rawBits)
    (hfit : L % m + s.rawBits < m) :
    Packed m W (L + s.rawBits) (fun i => low i + s.raw i * 2 ^ L) s.tag := by
  have hsplit : L + s.rawBits = m * (L / m) + (L % m + s.rawBits) := by
    have hdiv := Nat.div_add_mod L m
    omega
  have hdiv : (L + s.rawBits) / m = L / m := by
    rw [hsplit, Nat.mul_add_div (by omega), Nat.div_eq_of_lt hfit, Nat.add_zero]
  have hmod : (L + s.rawBits) % m = L % m + s.rawBits := by
    rw [hsplit, Nat.mul_add_mod, Nat.mod_eq_of_lt hfit]
  refine ⟨fun i => add_shifted_lt (h.lt i) (hraw i), ?_, ?_, ?_, h.length, ?_⟩
  · rw [hmod, ← h.bits]
    rfl
  · intro i
    have hword := div_current_lt (h.lt i) m
    have hsum : low i / 2 ^ (m * (L / m)) + s.raw i * 2 ^ (L % m) < 2 ^ m :=
      Nat.lt_of_lt_of_le (add_shifted_lt hword (hraw i)) (Nat.pow_le_pow_right two_pos (by omega))
    show addU64 (shiftUp (s.raw i) s.bits) (s.word i) = _
    rw [h.bits, h.word, shiftUp_eq (Nat.lt_of_le_of_lt (Nat.le_add_left _ _) hsum) hm,
      addU64_eq (by rwa [Nat.add_comm]) hm, hdiv, add_div_current, Nat.add_comm]
  · rw [hdiv]
    exact h.wordCount
  · intro j hj i
    rw [hdiv] at hj
    rw [wordOf_below hj]
    exact h.stored j hj i

/-- A full word is stored. -/
theorem Packed.fill (h : Packed m W L low s) (hpos : 0 < m) (hm : m ≤ 64)
    (hraw : ∀ i, s.raw i < 2 ^ s.rawBits) (hfull : m ≤ L % m + s.rawBits)
    (hroom : L + s.rawBits ≤ m * W) :
    ∃ s', s.fill m = .ok s' ∧
      Packed m W (L + (m - L % m)) (fun i => low i + s.raw i % 2 ^ (m - L % m) * 2 ^ L) s' ∧
      s'.rawBits = s.rawBits - (m - L % m) ∧
      (0 < s'.rawBits → ∀ i, s'.raw i = s.raw i / 2 ^ (m - L % m)) := by
  have hmod := Nat.mod_lt L hpos
  have hL := Nat.div_add_mod L m
  have hnext : L + (m - L % m) = m * (L / m + 1) := by
    rw [Nat.mul_succ]
    omega
  have hdiv : (L + (m - L % m)) / m = L / m + 1 := by rw [hnext, Nat.mul_div_cancel_left _ hpos]
  have hspace : L / m < W := by
    have hle : m * (L / m + 1) ≤ m * W := by omega
    exact Nat.le_of_mul_le_mul_left hle hpos
  have hsafe : ∀ i, s.raw i % 2 ^ (m - L % m) < 2 ^ (m - L % m) :=
    fun i => Nat.mod_lt _ (Nat.two_pow_pos _)
  have hlow : ∀ i, low i + s.raw i % 2 ^ (m - L % m) * 2 ^ L < 2 ^ (L + (m - L % m)) :=
    fun i => add_shifted_lt (h.lt i) (hsafe i)
  have hword : ∀ i, addU64 (s.word i) (shiftUp (s.raw i &&& (2 ^ (m - s.bits) - 1)) s.bits)
      = wordOf m (low i + s.raw i % 2 ^ (m - L % m) * 2 ^ L) (L / m) := by
    intro i
    have hsum : low i / 2 ^ (m * (L / m)) + s.raw i % 2 ^ (m - L % m) * 2 ^ (L % m) < 2 ^ m := by
      have hlt := add_shifted_lt (div_current_lt (h.lt i) m) (hsafe i)
      rwa [show L % m + (m - L % m) = m by omega] at hlt
    have htop : low i + s.raw i % 2 ^ (m - L % m) * 2 ^ L < 2 ^ (m * (L / m) + m) := by
      rw [← Nat.mul_add_one, ← hnext]
      exact hlow i
    rw [h.bits, h.word, Nat.and_two_pow_sub_one_eq_mod,
      shiftUp_eq (Nat.lt_of_le_of_lt (Nat.le_add_left _ _) hsum) hm, addU64_eq hsum hm,
      wordOf_of_lt htop, add_div_current]
  have hstore : s.store (fun i => addU64 (s.word i)
      (shiftUp (s.raw i &&& (2 ^ (m - s.bits) - 1)) s.bits)) =
      .ok (s.colsShifted.set (W - L / m - 1)
        fun i => wordOf m (low i + s.raw i % 2 ^ (m - L % m) * 2 ^ L) (L / m)) := by
    rw [funext hword, store, h.length, h.wordCount]
    exact if_pos hspace
  refine ⟨{
      bits := 0
      word := fun _ => 0
      raw := if s.rawBits - (m - s.bits) > 0
        then fun i => (s.raw i >>> (m - s.bits)) &&& (2 ^ (s.rawBits - (m - s.bits)) - 1) else s.raw
      rawBits := s.rawBits - (m - s.bits)
      colsShifted := s.colsShifted.set (W - L / m - 1)
        fun i => wordOf m (low i + s.raw i % 2 ^ (m - L % m) * 2 ^ L) (L / m)
      wordCount := s.wordCount + 1 }, ?_, ⟨hlow, ?_, ?_, ?_, ?_, ?_⟩, ?_, ?_⟩
  · unfold Packer.fill
    dsimp only
    rw [hstore]
    rfl
  · rw [hnext, Nat.mul_mod_right]
  · intro i
    rw [hdiv, ← hnext]
    exact (Nat.div_eq_of_lt (hlow i)).symm
  · rw [hdiv]
    exact congrArg (· + 1) h.wordCount
  · exact (List.length_set).trans h.length
  · intro j hj i
    rw [hdiv] at hj
    show ((s.colsShifted.set _ _)[W - 1 - j]?.map _) = _
    rcases Nat.lt_or_ge j (L / m) with hbelow | hcurrent
    · rw [List.getElem?_set_ne (by omega), h.stored j hbelow, wordOf_below hbelow]
    · obtain rfl : j = L / m := by omega
      have hdest : W - 1 - L / m < s.colsShifted.length := by
        rw [h.length, Nat.sub_sub]
        exact Nat.sub_lt (Nat.zero_lt_of_lt hspace) (Nat.add_pos_left Nat.one_pos _)
      rw [Nat.sub_right_comm, List.getElem?_set_self hdest]
      rfl
  · show s.rawBits - (m - s.bits) = _
    rw [h.bits]
  · intro hleft i
    have hextra : s.rawBits - (m - s.bits) > 0 := hleft
    have hquot : s.raw i / 2 ^ (m - L % m) < 2 ^ (s.rawBits - (m - L % m)) := by
      apply Nat.div_lt_of_lt_mul
      rw [← Nat.pow_add, show m - L % m + (s.rawBits - (m - L % m)) = s.rawBits by omega]
      exact hraw i
    show (if s.rawBits - (m - s.bits) > 0 then _ else _ : Fin r → Nat) i = _
    rw [if_pos hextra, h.bits, Nat.and_two_pow_sub_one_eq_mod, Nat.shiftRight_eq_div_pow,
      Nat.mod_eq_of_lt hquot]

/-- The two parts of a value that is cut. -/
theorem add_cut (low v k L : Nat) :
    low + v % 2 ^ k * 2 ^ L + v / 2 ^ k * 2 ^ (L + k) = low + v * 2 ^ L := by
  have hv := Nat.mod_add_div v (2 ^ k)
  calc low + v % 2 ^ k * 2 ^ L + v / 2 ^ k * 2 ^ (L + k)
      = low + (v % 2 ^ k + 2 ^ k * (v / 2 ^ k)) * 2 ^ L := by
        rw [Nat.pow_add]
        ring
    _ = low + v * 2 ^ L := by rw [hv]

/-- A pass takes `k` bits of the value. -/
theorem Packed.pass (h : Packed m W L low s) (hpos : 0 < m) (hm : m ≤ 64)
    (hraw : ∀ i, s.raw i < 2 ^ s.rawBits) (hleft : 0 < s.rawBits) (hroom : L + s.rawBits ≤ m * W) :
    ∃ s' k, 0 < k ∧ k ≤ s.rawBits ∧ s.pass m = .ok s' ∧
      Packed m W (L + k) (fun i => low i + s.raw i % 2 ^ k * 2 ^ L) s' ∧
      s'.rawBits = s.rawBits - k ∧ (0 < s'.rawBits → ∀ i, s'.raw i = s.raw i / 2 ^ k) := by
  have hmod := Nat.mod_lt L hpos
  have hwhole : ∀ i, s.raw i % 2 ^ s.rawBits = s.raw i := fun i => Nat.mod_eq_of_lt (hraw i)
  unfold Packer.pass
  rw [h.bits]
  by_cases hfull : m ≤ L % m + s.rawBits
  · obtain ⟨s₁, hfill, hpacked, hrest, hraw₁⟩ := h.fill hpos hm hraw hfull hroom
    rw [if_pos hfull, hfill]
    by_cases htag : s₁.rawBits > 0 ∧ s₁.bits + s₁.rawBits < m
    · -- the rest of the value starts the next word
      refine ⟨s₁.tag, s.rawBits, hleft, Nat.le_refl _, ?_, ?_, ?_, ?_⟩
      · exact congrArg Except.ok (if_pos htag)
      · have hlt : ∀ i, s₁.raw i < 2 ^ s₁.rawBits := by
          intro i
          rw [hraw₁ htag.1, hrest]
          apply Nat.div_lt_of_lt_mul
          rw [← Nat.pow_add, show m - L % m + (s.rawBits - (m - L % m)) = s.rawBits by omega]
          exact hraw i
        have htagged := hpacked.tag hm hlt (by rw [← hpacked.bits]; exact htag.2)
        rw [hrest,
          show L + (m - L % m) + (s.rawBits - (m - L % m)) = L + s.rawBits by omega] at htagged
        refine (funext fun i => ?_ :
          (fun i => low i + s.raw i % 2 ^ s.rawBits * 2 ^ L) = _) ▸ htagged
        rw [hraw₁ htag.1, add_cut, hwhole]
      · show 0 = s.rawBits - s.rawBits
        rw [Nat.sub_self]
      · intro hzero
        exact absurd hzero (Nat.lt_irrefl 0)
    · exact ⟨s₁, m - L % m, by omega, by omega, congrArg Except.ok (if_neg htag), hpacked,
        hrest, hraw₁⟩
  · rw [if_neg hfull]
    refine ⟨s.tag, s.rawBits, hleft, Nat.le_refl _, ?_, ?_, ?_, ?_⟩
    · have htag : s.rawBits > 0 ∧ s.bits + s.rawBits < m := ⟨hleft, by rw [h.bits]; omega⟩
      exact congrArg Except.ok (if_pos htag)
    · have htagged := h.tag hm hraw (by omega)
      refine (funext fun i => ?_ : (fun i => low i + s.raw i % 2 ^ s.rawBits * 2 ^ L) = _) ▸ htagged
      rw [hwhole]
    · show 0 = s.rawBits - s.rawBits
      rw [Nat.sub_self]
    · intro hzero
      exact absurd hzero (Nat.lt_irrefl 0)

/-- With a bit in each pass the loop ends, and the whole value is packed. -/
theorem Packed.loop (hpos : 0 < m) (hm : m ≤ 64) :
    ∀ {fuel L : Nat} {low : Fin r → Nat} {s : Packer r},
    Packed m W L low s → (0 < s.rawBits → ∀ i, s.raw i < 2 ^ s.rawBits) → s.rawBits ≤ fuel →
    L + s.rawBits ≤ m * W →
    ∃ s', loop m fuel s = .ok s' ∧
      Packed m W (L + s.rawBits) (fun i => low i + s.raw i % 2 ^ s.rawBits * 2 ^ L) s' := by
  intro fuel
  induction fuel with
  | zero =>
    intro L low s h hraw hfuel hroom
    have hdone : s.rawBits = 0 := Nat.le_zero.mp hfuel
    refine ⟨s, if_neg (by omega), ?_⟩
    simp only [hdone, Nat.add_zero, Nat.pow_zero, Nat.mod_one, Nat.zero_mul]
    exact h
  | succ fuel ih =>
    intro L low s h hraw hfuel hroom
    by_cases hleft : s.rawBits > 0
    · obtain ⟨s₁, k, hk, hle, hpass, hpacked, hrest, hraw₁⟩ :=
        h.pass hpos hm (hraw hleft) hleft hroom
      have hlt : 0 < s₁.rawBits → ∀ i, s₁.raw i < 2 ^ s₁.rawBits := by
        intro hleft₁ i
        rw [hraw₁ hleft₁, hrest]
        apply Nat.div_lt_of_lt_mul
        rw [← Nat.pow_add, Nat.add_sub_cancel' hle]
        exact hraw hleft i
      obtain ⟨s', hloop, hpacked'⟩ := ih hpacked hlt (by omega) (by omega)
      refine ⟨s', ?_, ?_⟩
      · unfold Packer.loop
        rw [if_pos hleft, hpass]
        exact hloop
      · rw [hrest, show L + k + (s.rawBits - k) = L + s.rawBits by omega] at hpacked'
        refine (funext fun i => ?_ :
          (fun i => low i + s.raw i % 2 ^ s.rawBits * 2 ^ L) = _) ▸ hpacked'
        rw [Nat.mod_eq_of_lt (hraw hleft i)]
        by_cases hleft₁ : 0 < s₁.rawBits
        · have hwhole : s₁.raw i % 2 ^ (s.rawBits - k) = s.raw i / 2 ^ k := by
            rw [← hrest, Nat.mod_eq_of_lt (hlt hleft₁ i), hraw₁ hleft₁]
          rw [hwhole, add_cut]
        · have hwhole : k = s.rawBits := by omega
          rw [hwhole, Nat.sub_self, Nat.pow_zero, Nat.mod_one, Nat.zero_mul, Nat.add_zero,
            Nat.mod_eq_of_lt (hraw hleft i)]
    · have hdone : s.rawBits = 0 := by omega
      refine ⟨s, if_neg hleft, ?_⟩
      simp only [hdone, Nat.add_zero, Nat.pow_zero, Nat.mod_one, Nat.zero_mul]
      exact h

theorem Packed.column (h : Packed m W L low s) (hpos : 0 < m) (hm : m ≤ 64) {n : Nat}
    {col : Fin r → Nat} (hcol : ∀ i, col i < 2 ^ n) (hroom : L + n ≤ m * W) :
    ∃ s', s.column m n col = .ok s' ∧ Packed m W (L + n) (fun i => low i + col i * 2 ^ L) s' := by
  have hstart : Packed m W L low { s with raw := col, rawBits := n } :=
    ⟨h.lt, h.bits, h.word, h.wordCount, h.length, h.stored⟩
  obtain ⟨s', hloop, hpacked⟩ := hstart.loop hpos hm (fun _ => hcol) (Nat.le_refl n) hroom
  refine ⟨s', hloop, ?_⟩
  refine (funext fun i => ?_ : (fun i => low i + col i * 2 ^ L) = _) ▸ hpacked
  rw [Nat.mod_eq_of_lt (hcol i)]

/-- The columns, from the last to the first. -/
theorem Packed.columns {κ : Type} (h : Packed m W 0 (fun _ => 0) s) (hpos : 0 < m) (hm : m ≤ 64)
    (width : κ → Nat) (value : κ → Fin r → Nat) : ∀ columns : List κ,
    (∀ k ∈ columns, ∀ i, value k i < 2 ^ width k) → (columns.map width).sum ≤ m * W →
    ∃ s', columns.reverse.foldlM (fun s k => s.column m (width k) (value k)) s = .ok s' ∧
      Packed m W (columns.map width).sum
        (fun i => concatFields (columns.map fun k => (width k, value k i))) s' := by
  intro columns
  induction columns with
  | nil =>
    intro hvalue hroom
    exact ⟨s, rfl, h⟩
  | cons k columns ih =>
    intro hvalue hroom
    rw [List.map_cons, List.sum_cons] at hroom
    obtain ⟨s₁, hfold, hpacked⟩ :=
      ih (fun k' hk' => hvalue k' (List.mem_cons_of_mem k hk')) (by omega)
    obtain ⟨s', hcolumn, hpacked'⟩ :=
      hpacked.column hpos hm (hvalue k List.mem_cons_self) (by rwa [Nat.add_comm])
    refine ⟨s', ?_, ?_⟩
    · rw [List.reverse_cons, List.foldlM_append, hfold]
      show (List.foldlM (fun s k => s.column m (width k) (value k)) s₁ [k] :
        Except D2uError (Packer r)) = .ok s'
      rw [List.foldlM_cons, hcolumn]
      rfl
    · rw [List.map_cons, List.sum_cons, Nat.add_comm (width k)]
      refine (funext fun i => ?_ :
        (fun i => concatFields ((k :: columns).map fun k => (width k, value k i))) = _) ▸ hpacked'
      rw [List.map_cons, concatFields_cons, List.map_map, Function.comp_def, Nat.add_comm]

/-- With the current word stored, all words are there. -/
theorem Packed.words (h : Packed m W L low s) (hpos : 0 < m) (hW : W = (L + m - 1) / m) :
    ∃ dout, (if s.bits ≠ 0 then s.store s.word else .ok s.colsShifted) = .ok dout ∧
      dout.length = W ∧ ∀ j < W, ∀ i, (dout[W - 1 - j]?.map fun w => w i) =
        some (wordOf m (low i) j) := by
  have hmod := Nat.mod_lt L hpos
  have hL := Nat.div_add_mod L m
  by_cases hbits : s.bits ≠ 0
  · have hcurrent : 0 < L % m := by
      rw [← h.bits]
      exact Nat.pos_of_ne_zero hbits
    have hnext : W = L / m + 1 := by
      rw [hW, show L + m - 1 = L % m - 1 + m * (L / m + 1) by rw [Nat.mul_succ]; omega,
        Nat.add_mul_div_left _ _ hpos, Nat.div_eq_of_lt (by omega), Nat.zero_add]
    refine ⟨s.colsShifted.set (W - L / m - 1) s.word, ?_, (List.length_set).trans h.length, ?_⟩
    · rw [if_pos hbits, store, h.length, h.wordCount]
      exact if_pos (hnext ▸ Nat.lt_succ_self _)
    · intro j hj i
      rcases Nat.lt_or_ge j (L / m) with hbelow | hcurrent
      · rw [List.getElem?_set_ne (by omega), h.stored j hbelow]
      · obtain rfl : j = L / m := by omega
        have hdest : W - 1 - L / m < s.colsShifted.length := by
          rw [h.length, Nat.sub_sub]
          exact Nat.sub_lt (Nat.zero_lt_of_lt hj) (Nat.add_pos_left Nat.one_pos _)
        have htop : low i < 2 ^ (m * (L / m) + m) :=
          Nat.lt_of_lt_of_le (h.lt i) (Nat.pow_le_pow_right two_pos (by omega))
        rw [Nat.sub_right_comm, List.getElem?_set_self hdest, Option.map_some, h.word,
          wordOf_of_lt htop]
  · have hzero : L % m = 0 := by
      rw [← h.bits]
      exact not_not.mp hbits
    have hwords : W = L / m := by
      rw [hW, show L + m - 1 = m - 1 + m * (L / m) by omega, Nat.add_mul_div_left _ _ hpos,
        Nat.div_eq_of_lt (by omega), Nat.zero_add]
    refine ⟨s.colsShifted, if_neg hbits, h.length, ?_⟩
    intro j hj
    exact h.stored j (hwords ▸ hj)

/-- The words of a row, with the first one most significant, are its bits. -/
theorem concat_row {dout : List (Fin r → Nat)} {x : Nat} {i : Fin r} (hlen : dout.length = W)
    (hwords : ∀ j < W, (dout[W - 1 - j]?.map fun w => w i) = some (wordOf m x j))
    (hlt : x < 2 ^ (m * W)) : concatFields (dout.map fun w => (m, w i)) = x := by
  have hrow : dout.map (fun w => (m, w i)) = (List.range W).reverse.map fun j =>
      (m, wordOf m x j) := by
    apply List.ext_getElem?
    intro p
    rcases Nat.lt_or_ge p W with hp | hp
    · have hword := hwords (W - 1 - p) (by omega)
      rw [show W - 1 - (W - 1 - p) = p by omega, List.getElem?_eq_getElem (hlen ▸ hp)] at hword
      rw [List.getElem?_map, List.getElem?_map, List.getElem?_reverse (by rwa [List.length_range]),
        List.length_range, List.getElem?_range (by omega), List.getElem?_eq_getElem (hlen ▸ hp)]
      simp only [Option.map_some, Option.some.injEq] at hword
      simp only [Option.map_some, hword]
    · rw [List.getElem?_eq_none (by rw [List.length_map]; omega),
        List.getElem?_eq_none
        (by rw [List.length_map, List.length_reverse, List.length_range]; omega)]
  rw [hrow, concatFields_wordOf, Nat.mod_eq_of_lt hlt]

end Packer

/-! ## The words of a matrix -/

section FluffOut

variable {α : Type} {c : Nat} {values : List α}

theorem length_fluffOut (h : values.length = c ∨ values.length = 1) :
    (fluffOut c values).length = c := by
  match values, h with
  | [], h =>
    rcases h with h | h
    · exact h
    · cases h
  | [value], h => exact List.length_replicate
  | first :: second :: rest, h =>
    rcases h with h | h
    · exact h
    · cases h

theorem mem_of_mem_fluffOut {value : α} (h : value ∈ fluffOut c values) : value ∈ values := by
  match values, h with
  | [], h => exact h
  | [only], h =>
    rw [List.eq_of_mem_replicate h]
    exact List.mem_singleton_self only
  | first :: second :: rest, h => exact h

end FluffOut

theorem map_getD_finRange {values : List Nat} {c : Nat} (h : values.length = c) :
    ((List.finRange c).map fun k : Fin c => values.getD k 0) = values := by
  subst h
  apply List.ext_getElem
  · rw [List.length_map, List.length_finRange]
  · intro p hp hp'
    rw [List.getElem_map, List.getElem_finRange, List.getD_eq_getElem?_getD]
    exact congrArg (Option.getD · 0) (List.getElem?_eq_getElem hp')

/-- The words of a row are its values, one after the other. -/
theorem packColumns_words {r c m : Nat} {nBits : List Nat} {colsU64 : Fin c → Fin r → Nat}
    (hpos : 0 < m) (hm : m ≤ 64) (hlength : nBits.length = c)
    (hlt : ∀ k i, colsU64 k i < 2 ^ nBits.getD k 0) :
    ∃ dout, packColumns colsU64 nBits m = .ok dout ∧ dout.length = (nBits.sum + m - 1) / m ∧
      (∀ word ∈ dout, ∀ i, word i < 2 ^ m) ∧
      ∀ i, concatFields (dout.map fun word => (m, word i)) =
        concatFields ((List.finRange c).map fun k : Fin c => (nBits.getD k 0, colsU64 k i)) := by
  have htotal : ((List.finRange c).map fun k : Fin c => nBits.getD k 0).sum = nBits.sum := by
    rw [map_getD_finRange hlength]
  generalize hW : (nBits.sum + m - 1) / m = W
  have hroom : nBits.sum ≤ m * W := by
    have hdiv := Nat.div_add_mod (nBits.sum + m - 1) m
    have hmod := Nat.mod_lt (nBits.sum + m - 1) hpos
    rw [hW] at hdiv
    omega
  have hstart : Packer.Packed m W 0 (fun _ : Fin r => 0)
      { bits := 0, word := fun _ => 0, raw := fun _ => 0, rawBits := 0,
        colsShifted := List.replicate W fun _ => 0, wordCount := 0 } :=
    ⟨fun _ => Nat.one_pos, (Nat.zero_mod _).symm, fun _ => (Nat.zero_div _).symm,
      (Nat.zero_div _).symm, List.length_replicate, fun j hj =>
      absurd hj (by rw [Nat.zero_div]; exact Nat.not_lt_zero j)⟩
  obtain ⟨s, hfold, hpacked⟩ := hstart.columns hpos hm (fun k : Fin c => nBits.getD k 0) colsU64
    (List.finRange c) (fun k _ => hlt k) (by rwa [htotal])
  rw [htotal] at hpacked
  obtain ⟨dout, hstored, hlen, hwords⟩ := hpacked.words hpos hW.symm
  refine ⟨dout, ?_, hlen, ?_, ?_⟩
  · unfold packColumns
    dsimp only
    rw [hW, hfold]
    exact hstored
  · intro word hword i
    obtain ⟨p, hp, rfl⟩ := List.getElem_of_mem hword
    have hat := hwords (W - 1 - p) (by omega) i
    rw [show W - 1 - (W - 1 - p) = p by omega, List.getElem?_eq_getElem hp, Option.map_some,
      Option.some.injEq] at hat
    rw [hat]
    exact wordOf_lt _ _ _
  · intro i
    exact Packer.concat_row hlen (fun j hj => hwords j hj i)
      (Nat.lt_of_lt_of_le (hpacked.lt i) (Nat.pow_le_pow_right two_pos hroom))

/-- **The words of a row are its columns, rounded and saturated, one after the other.** -/
theorem doubles2unsigned_words {r c : Nat} (din : Fin r → Fin c → Rat) {nBits : List Nat}
    {binPt : List Int} {maxWordSize : Nat} (hsame : nBits.length = binPt.length)
    (hcols : nBits.length = c ∨ nBits.length = 1) (hwidth : ∀ n ∈ nBits, 1 ≤ n ∧ n ≤ 52)
    (hmax : 1 ≤ maxWordSize ∧ maxWordSize ≤ 64) :
    ∃ dout, doubles2unsigned din nBits binPt maxWordSize = .ok dout ∧
      dout.length = ((fluffOut c nBits).sum + maxWordSize - 1) / maxWordSize ∧
      (∀ word ∈ dout, ∀ i, word i < 2 ^ maxWordSize) ∧
      ∀ i, concatFields (dout.map fun word => (maxWordSize, word i)) =
        concatFields ((List.finRange c).map fun k : Fin c => ((fluffOut c nBits).getD k 0,
          encoding ((fluffOut c nBits).getD k 0) ((fluffOut c binPt).getD k 0) (din i k))) := by
  have hlength := length_fluffOut hcols
  have hwidths : ∀ k : Fin c, 1 ≤ (fluffOut c nBits).getD k 0 ∧
      (fluffOut c nBits).getD k 0 ≤ 52 := by
    intro k
    have hk : k.val < (fluffOut c nBits).length := by
      rw [hlength]
      exact k.isLt
    rw [List.getD_eq_getElem?_getD, List.getElem?_eq_getElem hk, Option.getD_some]
    exact hwidth _ (mem_of_mem_fluffOut (List.getElem_mem _))
  have hvalue : (fun (k : Fin c) i =>
        toU64 (colInt ((fluffOut c nBits).getD k 0) ((fluffOut c binPt).getD k 0) (din i k)))
      = fun (k : Fin c) i =>
        encoding ((fluffOut c nBits).getD k 0) ((fluffOut c binPt).getD k 0) (din i k) := by
    funext k i
    exact toU64_colInt (hwidths k).1 (hwidths k).2 _ _
  obtain ⟨dout, hpack, hwords⟩ := packColumns_words hmax.1 hmax.2 hlength
    (fun k i => encoding_lt (hwidths k).1 ((fluffOut c binPt).getD k 0) (din i k))
  refine ⟨dout, ?_, hwords⟩
  unfold doubles2unsigned
  dsimp only
  rw [if_neg (not_not.mpr hsame), if_neg (by omega), if_neg (by omega), hvalue]
  exact hpack

/-- Ten bits of two columns, in words of four bits. -/
theorem doubles2unsigned_words_twoColumns :
    ∃ dout, doubles2unsigned (fun (_ : Fin 1) (k : Fin 2) => if k = 0 then -3 / 4 else 9) [4, 6]
      [2, 1] 4 = .ok dout ∧ dout.length = 3 ∧ (∀ word ∈ dout, ∀ i, word i < 2 ^ 4) ∧
      ∀ i, concatFields (dout.map fun word => (4, word i)) =
        concatFields ((List.finRange 2).map fun k : Fin 2 => ((fluffOut 2 [4, 6]).getD k 0,
          encoding ((fluffOut 2 [4, 6]).getD k 0) ((fluffOut 2 [2, 1]).getD k 0)
            (if k = 0 then -3 / 4 else 9))) :=
  doubles2unsigned_words _ (by decide) (by decide) (by decide) (by decide)

/-- `1101` and `010010` -/
example :
    (doubles2unsigned (fun (_ : Fin 1) (k : Fin 2) => if k = 0 then -3 / 4 else 9)
      [4, 6] [2, 1] 4).toOption.map (·.map (· 0)) = some [3, 5, 2] := by
  decide +kernel

end MlibDevel.CasperLibrary
