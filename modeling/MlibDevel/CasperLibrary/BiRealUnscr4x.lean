import Mathlib.Analysis.Complex.Basic
import MlibDevel.CasperLibrary.BitReverse
import MlibDevel.CasperLibrary.SquareTransposer

/-!
# Four real spectra from two complex ones (`bi_real_unscr_4x_init.m`)

The biplex core transforms two complex signals, each made of two real ones, and puts out the lower
bins of the spectra on one stream and the upper ones on another, in bit-reversed order.
`bi_real_unscr_4x` pairs each bin with its mirror image, from which `hilbert` gets the two real
spectra.  It does so for one half of a spectrum; the other half is the mirror image of the first,
conjugated.

Words are counted from a sync on and arithmetic is exact.  Latencies are left out, so of the delays
only those are drawn that move a stream against another.
-/

namespace MlibDevel.CasperLibrary

open Lib

/-! ## The maps -/

/-- `2^(FFTSize-1)`, half of the spectrum -/
def halfSize (F : Nat) : Nat := 2 ^ (F - 1)

/-- `map_even` -/
def mapEven (F : Nat) : List Nat := (List.range (halfSize F)).map fun i => bitReverse i (F - 1)

/-- `map_odd` -/
def mapOdd (F : Nat) : List Nat :=
  (List.range (halfSize F)).map fun i => bitReverse (halfSize F - 1 - i) (F - 1)

/-- `map_out` -/
def mapOut (F : Nat) : List Nat := (List.range (halfSize F)).map fun i => halfSize F - 1 - i

theorem mapEven_perm (F : Nat) : (mapEven F).Perm (List.range (2 ^ (F - 1))) :=
  map_range_perm (g := fun k => bitReverse k (F - 1)) (fun i _ => bitReverse_lt i _)
    fun _ hi => bitReverse_bitReverse hi

theorem mapOdd_perm (F : Nat) : (mapOdd F).Perm (List.range (2 ^ (F - 1))) := by
  unfold mapOdd halfSize
  refine map_range_perm (g := fun k => 2 ^ (F - 1) - 1 - bitReverse k (F - 1))
    (fun i _ => bitReverse_lt _ _) fun i hi => ?_
  rw [bitReverse_bitReverse (by omega)]
  omega

theorem mapOut_perm (F : Nat) : (mapOut F).Perm (List.range (2 ^ (F - 1))) := by
  unfold mapOut halfSize
  refine map_range_perm (g := fun k => 2 ^ (F - 1) - 1 - k) (fun i hi => ?_) fun i hi => ?_
  · omega
  · omega

/-! ## The blocks -/

/-- A complex number as its parts on a bus. -/
structure Cplx (K : Type) where
  re : K
  im : K
  deriving DecidableEq

section

variable {K : Type} [Field K]

/-- `complex_conj` -/
def Cplx.conj (z : Cplx K) : Cplx K := ⟨z.re, -z.im⟩

/--
`hilbert`, its outputs `even` and `odd`.  The sums are scaled by a half in fixed-point arithmetic
only.
-/
def hilbert (floatingPoint : Bool) (a b : Cplx K) : Cplx K × Cplx K :=
  let addEvenReal := a.re + b.re
  let subOddImag := b.re - a.re
  let subEvenImag := a.im - b.im
  let addOddReal := a.im + b.im
  let scale := fun x : K => if floatingPoint then x else x / 2
  (⟨scale addEvenReal, scale subEvenImag⟩, ⟨scale addOddReal, scale subOddImag⟩)

/-- The conjugates of the outputs are those for the inputs exchanged. -/
theorem hilbert_conj (floatingPoint : Bool) (a b : Cplx K) :
    (hilbert floatingPoint a b).1.conj = (hilbert floatingPoint b a).1 ∧
      (hilbert floatingPoint a b).2.conj = (hilbert floatingPoint b a).2 := by
  cases floatingPoint with
  | true => simp [hilbert, Cplx.conj, add_comm]
  | false => simp [hilbert, Cplx.conj, add_comm, ← neg_div]

end

/-! ## What is drawn -/

section

variable {K : Type}

/-- The mask parameters and the reorder blocks. -/
structure BiRealUnscr4x (K : Type) where
  FFTSize : Nat
  floatingPoint : Bool
  reorderEven : Circuit (Sample (Cplx K)) (Cplx K)
  reorderOdd : Circuit (Sample (Cplx K)) (Cplx K)
  reorderOut : Circuit (Sample (Fin 4 → Cplx K)) (Fin 4 → Cplx K)

/-- `bi_real_unscr_4x_init` -/
def biRealUnscr4xInit (FFTSize : Nat) (floatingPoint : Bool) : Option (BiRealUnscr4x K) :=
  if FFTSize = 0 then none
  else do
    let reorderEven ← reorderInit (mapEven FFTSize)
    let reorderOdd ← reorderInit (mapOdd FFTSize)
    let reorderOut ← reorderInit (mapOut FFTSize)
    return { FFTSize, floatingPoint, reorderEven, reorderOdd, reorderOut }

namespace BiRealUnscr4x

/-- The reorder blocks are those for the maps. -/
structure Drawn (b : BiRealUnscr4x K) : Prop where
  FFTSize_ne : b.FFTSize ≠ 0
  even : reorderInit (mapEven b.FFTSize) = some b.reorderEven
  odd : reorderInit (mapOdd b.FFTSize) = some b.reorderOdd
  out : reorderInit (mapOut b.FFTSize) = some b.reorderOut

/-- Every size but zero can be drawn. -/
theorem exists_drawn {F : Nat} (hF : F ≠ 0) (floatingPoint : Bool) :
    ∃ b : BiRealUnscr4x K, biRealUnscr4xInit F floatingPoint = some b ∧ b.Drawn ∧
      b.FFTSize = F ∧ b.floatingPoint = floatingPoint := by
  obtain ⟨reorderEven, heven, -⟩ := reorderInit_reorders (Cplx K) (mapEven_perm F)
  obtain ⟨reorderOdd, hodd, -⟩ := reorderInit_reorders (Cplx K) (mapOdd_perm F)
  obtain ⟨reorderOut, hout, -⟩ := reorderInit_reorders (Fin 4 → Cplx K) (mapOut_perm F)
  refine ⟨⟨F, floatingPoint, reorderEven, reorderOdd, reorderOut⟩, ?_, ⟨hF, heven, hodd, hout⟩,
    rfl, rfl⟩
  rw [biRealUnscr4xInit, if_neg hF, heven, hodd, hout]
  rfl

/-- What the blocks held at the sync. -/
structure Regs (b : BiRealUnscr4x K) where
  reorderEven : Synced b.reorderEven
  reorderOdd : Synced b.reorderOdd
  reorderOut : Synced b.reorderOut
  d0 : Nat → Cplx K
  delay0 : Nat → Cplx K
  delay1 : Nat → Cplx K
  /-- `d3` to `d6` -/
  d3 : Nat → Fin 4 → Cplx K

variable (b : BiRealUnscr4x K) (regs : b.Regs) (even odd : Nat → Cplx K)

/-! The words on the lines, counted from the sync of `reorder_even` on. -/

/-- `reorder_even/3` -/
def evenOut (t : Nat) : Cplx K :=
  reorderWords b.reorderEven regs.reorderEven even (t + halfSize b.FFTSize)

/-- `reorder_odd/3` -/
def oddOut (t : Nat) : Cplx K :=
  reorderWords b.reorderOdd regs.reorderOdd odd (t + halfSize b.FFTSize)

/-- `d0/1` -/
def oddBefore : Nat → Cplx K := delaySlr 1 regs.d0 (b.oddOut regs odd)

/-- `count` -/
def count (t : Nat) : Nat := t % 2 ^ b.FFTSize

def mux0 (t : Nat) : Cplx K :=
  if b.count t = halfSize b.FFTSize then b.oddBefore regs odd t else b.evenOut regs even t

def mux1 (t : Nat) : Cplx K :=
  if b.count t = 0 then b.evenOut regs even t else b.oddBefore regs odd t

def mux2 (t : Nat) : Cplx K :=
  if b.count t = 0 then b.oddBefore regs odd t else b.evenOut regs even t

def mux3 (t : Nat) : Cplx K :=
  if b.count t = halfSize b.FFTSize then b.evenOut regs even t else b.oddBefore regs odd t

variable [Field K]

def hilbert0 (t : Nat) : Cplx K × Cplx K :=
  hilbert b.floatingPoint (b.mux0 regs even odd t) (b.mux1 regs even odd t)

def hilbert1 (t : Nat) : Cplx K × Cplx K :=
  hilbert b.floatingPoint (b.mux2 regs even odd t) (b.mux3 regs even odd t)

/-- The inputs of `mirror_spectrum` and `reorder_out`, counted from the sync of `sync_delay` on. -/
def spectra (u : Nat) : Fin 4 → Cplx K :=
  let t := u + halfSize b.FFTSize
  ![delaySlr (halfSize b.FFTSize) regs.delay0 (fun t => (b.hilbert0 regs even odd t).1) t,
    delaySlr (halfSize b.FFTSize) regs.delay1 (fun t => (b.hilbert0 regs even odd t).2) t,
    (b.hilbert1 regs even odd t).1, (b.hilbert1 regs even odd t).2]

/--
The outputs of `d3` to `d6`.  `mirror_spectrum` delays its other inputs by the latency of
`reorder_out`, so these come a word later.
-/
def reversed : Nat → Fin 4 → Cplx K :=
  delaySlr 1 regs.d3 (reorderWords b.reorderOut regs.reorderOut (b.spectra regs even odd))

/-- `mirror_spectrum`: `pol1_out` to `pol4_out`. -/
def polOut (u : Nat) (k : Fin 4) : Cplx K :=
  if halfSize b.FFTSize < u % 2 ^ b.FFTSize then (b.reversed regs even odd u k).conj
  else b.spectra regs even odd u k

end BiRealUnscr4x

end

/-! ## The input -/

section

variable {α : Type}

/-- Spectra that come in pairs, one after another. -/
def inTurn (A B : Nat → α) (f : Nat) : α := if f % 2 = 0 then A (f / 2) else B (f / 2)

theorem inTurn_two_mul (A B : Nat → α) (w : Nat) : inTurn A B (2 * w) = A w := by
  simp [inTurn]

theorem inTurn_two_mul_add_one (A B : Nat → α) (w : Nat) :
    inTurn A B (2 * w + 1) = B w := by
  have : (2 * w + 1) / 2 = w := by omega
  simp [inTurn, this]

/-- Bin `k`, modulo the number of bins. -/
def bin (F k : Nat) : Fin (2 ^ F) := ⟨k % 2 ^ F, Nat.mod_lt k (Nat.two_pow_pos F)⟩

theorem bin_val {F : Nat} (s : Fin (2 ^ F)) : bin F s = s := Fin.ext (Nat.mod_eq_of_lt s.isLt)

theorem bin_sub {F : Nat} (s : Fin (2 ^ F)) : bin F (2 ^ F - s) = -s := rfl

/-- What the biplex core puts out on `even`: the lower bins in bit-reversed order. -/
def biplexEven {F : Nat} (A B : Nat → Fin (2 ^ F) → α) (t : Nat) : α :=
  inTurn A B (t / halfSize F) (bin F (bitReverse (t % halfSize F) (F - 1)))

/-- What it puts out on `odd`: the upper bins. -/
def biplexOdd {F : Nat} (A B : Nat → Fin (2 ^ F) → α) (t : Nat) : α :=
  inTurn A B (t / halfSize F)
    (bin F (halfSize F + bitReverse (t % halfSize F) (F - 1)))

theorem two_mul_halfSize {F : Nat} (hF : F ≠ 0) : 2 * halfSize F = 2 ^ F := by
  obtain ⟨n, rfl⟩ := Nat.exists_eq_succ_of_ne_zero hF
  rw [halfSize, Nat.succ_sub_one, Nat.pow_succ, Nat.mul_comm]

/-- A position in a frame of half a spectrum. -/
theorem frame_halfSize {F r : Nat} (f : Nat) (hr : r < halfSize F) :
    (f * halfSize F + r) / halfSize F = f ∧ (f * halfSize F + r) % halfSize F = r := by
  constructor
  · rw [Nat.mul_comm, Nat.mul_add_div (by omega), Nat.div_eq_of_lt hr, Nat.add_zero]
  · rw [Nat.mul_comm, Nat.mul_add_mod, Nat.mod_eq_of_lt hr]

theorem biplexEven_bitReverse {F : Nat} (A B : Nat → Fin (2 ^ F) → α) (f : Nat) {i : Nat}
    (hi : i < halfSize F) : biplexEven A B (f * halfSize F + bitReverse i (F - 1)) =
      inTurn A B f (bin F i) := by
  obtain ⟨hdiv, hmod⟩ := frame_halfSize f (bitReverse_lt i (F - 1))
  rw [biplexEven, hdiv, hmod, bitReverse_bitReverse hi]

theorem biplexOdd_bitReverse {F : Nat} (A B : Nat → Fin (2 ^ F) → α) (f : Nat) {i : Nat}
    (hi : i < halfSize F) : biplexOdd A B (f * halfSize F + bitReverse i (F - 1)) =
      inTurn A B f (bin F (halfSize F + i)) := by
  obtain ⟨hdiv, hmod⟩ := frame_halfSize f (bitReverse_lt i (F - 1))
  rw [biplexOdd, hdiv, hmod, bitReverse_bitReverse hi]

end

/-! ## The output -/

section

variable {K : Type}

namespace BiRealUnscr4x

variable {b : BiRealUnscr4x K} (hb : b.Drawn) (regs : b.Regs)
  (A B : Nat → Fin (2 ^ b.FFTSize) → Cplx K)

include hb

/-- `reorder_even` puts out the lower bins in order. -/
theorem evenOut_eq (f : Nat) {i : Nat} (hi : i < halfSize b.FFTSize) :
    b.evenOut regs (biplexEven A B) (f * halfSize b.FFTSize + i) =
      inTurn A B f (bin _ i) := by
  have hwords := reorderWords_eq (mapEven_perm b.FFTSize) hb.even regs.reorderEven
    (biplexEven A B) f hi
  have htime : f * halfSize b.FFTSize + i + halfSize b.FFTSize =
      (f + 1) * 2 ^ (b.FFTSize - 1) + i := by
    rw [halfSize]
    ring
  rw [evenOut, htime, hwords]
  exact biplexEven_bitReverse A B f hi

/-- `reorder_odd` puts out the upper bins in reverse order. -/
theorem oddOut_eq (f : Nat) {i : Nat} (hi : i < halfSize b.FFTSize) :
    b.oddOut regs (biplexOdd A B) (f * halfSize b.FFTSize + i) =
      inTurn A B f (bin _ (2 ^ b.FFTSize - 1 - i)) := by
  have hwords := reorderWords_eq (mapOdd_perm b.FFTSize) hb.odd regs.reorderOdd
    (biplexOdd A B) f hi
  have htime : f * halfSize b.FFTSize + i + halfSize b.FFTSize =
      (f + 1) * 2 ^ (b.FFTSize - 1) + i := by
    rw [halfSize]
    ring
  have hbin : 2 ^ b.FFTSize - 1 - i = halfSize b.FFTSize + (halfSize b.FFTSize - 1 - i) := by
    have := two_mul_halfSize hb.FFTSize_ne
    omega
  rw [oddOut, htime, hwords, hbin]
  exact biplexOdd_bitReverse A B f (by omega)

/-- A word later the bins are the mirror images of those of `reorder_even`. -/
theorem oddBefore_eq (f : Nat) {s : Nat} (hpos : 0 < s) (hs : s ≤ halfSize b.FFTSize) :
    b.oddBefore regs (biplexOdd A B) (f * halfSize b.FFTSize + s) =
      inTurn A B f (bin _ (2 ^ b.FFTSize - s)) := by
  rw [oddBefore, delaySlr_of_le _ _ (by omega), Nat.add_sub_assoc hpos,
    oddOut_eq hb regs A B f (by omega), Nat.sub_sub, Nat.add_sub_cancel' hpos]

/-- A bin of the lower half.  The middle one comes from the odd stream. -/
theorem lower_eq (f : Nat) {s : Nat} (hs : s ≤ halfSize b.FFTSize) :
    (if s = halfSize b.FFTSize then b.oddBefore regs (biplexOdd A B) (f * halfSize b.FFTSize + s)
      else b.evenOut regs (biplexEven A B) (f * halfSize b.FFTSize + s)) =
    inTurn A B f (bin _ s) := by
  have hsize := two_mul_halfSize hb.FFTSize_ne
  have hhalf : 0 < halfSize b.FFTSize := Nat.two_pow_pos _
  split
  · next hmid =>
    have himage : 2 ^ b.FFTSize - s = s := by omega
    rw [oddBefore_eq hb regs A B f (by omega) hs, himage]
  · next hmid => exact evenOut_eq hb regs A B f (by omega)

/-- Its mirror image.  Bin 0 is its own and comes from the even stream. -/
theorem mirror_eq (f : Nat) {s : Nat} (hs : s ≤ halfSize b.FFTSize) :
    (if s = 0 then b.evenOut regs (biplexEven A B) (f * halfSize b.FFTSize + s)
      else b.oddBefore regs (biplexOdd A B) (f * halfSize b.FFTSize + s)) =
    inTurn A B f (bin _ (2 ^ b.FFTSize - s)) := by
  split
  · next hzero =>
    subst hzero
    rw [evenOut_eq hb regs A B f (Nat.two_pow_pos _)]
    simp [bin]
  · next hzero => exact oddBefore_eq hb regs A B f (by omega) hs

omit hb in
theorem count_eq (w : Nat) {s : Nat} (hs : s < 2 ^ b.FFTSize) :
    b.count (w * 2 ^ b.FFTSize + s) = s := by
  rw [count, Nat.mul_comm, Nat.mul_add_mod, Nat.mod_eq_of_lt hs]

/-- The inputs of `hilbert0` are a bin of the first spectrum and its mirror image. -/
theorem mux0_mux1 (w : Nat) {s : Nat} (hs : s ≤ halfSize b.FFTSize) :
    b.mux0 regs (biplexEven A B) (biplexOdd A B) (w * 2 ^ b.FFTSize + s) =
      A w (bin _ s) ∧
    b.mux1 regs (biplexEven A B) (biplexOdd A B) (w * 2 ^ b.FFTSize + s) =
      A w (bin _ (2 ^ b.FFTSize - s)) := by
  have hsize := two_mul_halfSize hb.FFTSize_ne
  have hhalf : 0 < halfSize b.FFTSize := Nat.two_pow_pos _
  have htime : w * 2 ^ b.FFTSize = 2 * w * halfSize b.FFTSize := by
    rw [← hsize]
    ring
  rw [mux0, mux1, count_eq w (by omega), htime, lower_eq hb regs A B _ hs,
    mirror_eq hb regs A B _ hs, inTurn_two_mul]
  exact ⟨rfl, rfl⟩

/-- The inputs of `hilbert1` are those of the second spectrum, half a spectrum later. -/
theorem mux2_mux3 (w : Nat) {s : Nat} (hs : s ≤ halfSize b.FFTSize) :
    b.mux2 regs (biplexEven A B) (biplexOdd A B) (w * 2 ^ b.FFTSize + s + halfSize b.FFTSize) =
      B w (bin _ s) ∧
    b.mux3 regs (biplexEven A B) (biplexOdd A B) (w * 2 ^ b.FFTSize + s + halfSize b.FFTSize) =
      B w (bin _ (2 ^ b.FFTSize - s)) := by
  have hsize := two_mul_halfSize hb.FFTSize_ne
  have hhalf : 0 < halfSize b.FFTSize := Nat.two_pow_pos _
  have htime : w * 2 ^ b.FFTSize + s + halfSize b.FFTSize =
      (2 * w + 1) * halfSize b.FFTSize + s := by
    rw [← hsize]
    ring
  -- the counter starts again when the middle bin comes
  have hcount : b.count (w * 2 ^ b.FFTSize + s + halfSize b.FFTSize) =
      if s = halfSize b.FFTSize then 0 else halfSize b.FFTSize + s := by
    split
    · next hmid =>
      rw [show w * 2 ^ b.FFTSize + s + halfSize b.FFTSize = (w + 1) * 2 ^ b.FFTSize + 0 by
        rw [hmid, ← hsize]; ring, count_eq _ (by omega)]
    · next hmid =>
      rw [Nat.add_assoc, Nat.add_comm s, count_eq _ (by omega)]
  have hmid : b.count (w * 2 ^ b.FFTSize + s + halfSize b.FFTSize) = 0 ↔
      s = halfSize b.FFTSize := by
    rw [hcount]
    split <;> omega
  have hzero : b.count (w * 2 ^ b.FFTSize + s + halfSize b.FFTSize) = halfSize b.FFTSize ↔
      s = 0 := by
    rw [hcount]
    split <;> omega
  rw [mux2, mux3, if_congr hmid rfl rfl, if_congr hzero rfl rfl, htime, lower_eq hb regs A B _ hs,
    mirror_eq hb regs A B _ hs, inTurn_two_mul_add_one]
  exact ⟨rfl, rfl⟩

variable [Field K]

omit hb in
/-- The four real spectra of a pair of complex ones, at a bin. -/
def separate {F : Nat} (floatingPoint : Bool) (A B : Fin (2 ^ F) → Cplx K) (s : Fin (2 ^ F)) :
    Fin 4 → Cplx K :=
  let a := hilbert floatingPoint (A s) (A (-s))
  let b := hilbert floatingPoint (B s) (B (-s))
  ![a.1, a.2, b.1, b.2]

omit hb in
/-- The bins of the upper half are the conjugates of their mirror images. -/
theorem conj_separate {F : Nat} (floatingPoint : Bool) (A B : Fin (2 ^ F) → Cplx K)
    (s : Fin (2 ^ F)) (k : Fin 4) :
    (separate floatingPoint A B (-s) k).conj = separate floatingPoint A B s k := by
  obtain ⟨ha₁, ha₂⟩ := hilbert_conj floatingPoint (A (-s)) (A s)
  obtain ⟨hb₁, hb₂⟩ := hilbert_conj floatingPoint (B (-s)) (B s)
  rw [separate, separate, neg_neg]
  fin_cases k
  · exact ha₁
  · exact ha₂
  · exact hb₁
  · exact hb₂

/-- The bins up to the middle one come straight from `hilbert0` and `hilbert1`. -/
theorem spectra_eq (w : Nat) (s : Fin (2 ^ b.FFTSize)) (hs : (s : Nat) ≤ halfSize b.FFTSize) :
    b.spectra regs (biplexEven A B) (biplexOdd A B) (w * 2 ^ b.FFTSize + s) =
      separate b.floatingPoint (A w) (B w) s := by
  obtain ⟨h₀, h₁⟩ := mux0_mux1 hb regs A B w hs
  obtain ⟨h₂, h₃⟩ := mux2_mux3 hb regs A B w hs
  rw [bin_val] at h₀ h₂
  rw [bin_sub] at h₁ h₃
  rw [spectra, delaySlr_of_le _ _ (Nat.le_add_left _ _), delaySlr_of_le _ _ (Nat.le_add_left _ _),
    Nat.add_sub_cancel, hilbert0, hilbert1, h₀, h₁, h₂, h₃]
  rfl

/-- `reorder_out` brings the bins before the middle one back in reverse order. -/
theorem reversed_eq (w : Nat) (s : Fin (2 ^ b.FFTSize)) (hs : halfSize b.FFTSize < (s : Nat)) :
    b.reversed regs (biplexEven A B) (biplexOdd A B) (w * 2 ^ b.FFTSize + s) =
      separate b.floatingPoint (A w) (B w) (-s) := by
  have hsize := two_mul_halfSize hb.FFTSize_ne
  have hlt := s.isLt
  have hneg : ((-s : Fin (2 ^ b.FFTSize)) : Nat) = 2 ^ b.FFTSize - s := by
    rw [Fin.val_neg', Nat.mod_eq_of_lt (by omega)]
  obtain ⟨i, hi⟩ := Nat.exists_eq_add_of_lt hs
  have hpos : i < halfSize b.FFTSize := by omega
  have hframe : w * 2 ^ b.FFTSize = 2 * w * 2 ^ (b.FFTSize - 1) := by
    rw [← hsize, halfSize]
    ring
  have htime : w * 2 ^ b.FFTSize + s - 1 = (2 * w + 1) * 2 ^ (b.FFTSize - 1) + i := by
    rw [hframe, hi, halfSize, Nat.add_mul]
    omega
  have hbin : 2 * w * 2 ^ (b.FFTSize - 1) + (halfSize b.FFTSize - 1 - i) =
      w * 2 ^ b.FFTSize + (-s : Fin (2 ^ b.FFTSize)) := by
    rw [hframe, hneg]
    omega
  rw [reversed, delaySlr_of_le _ _ (by omega), htime,
    reorderWords_eq (mapOut_perm b.FFTSize) hb.out regs.reorderOut _ (2 * w) hpos, hbin,
    spectra_eq hb regs A B w (-s) (by omega)]

/-- **Every bin of the four real spectra comes out at its position.** -/
theorem polOut_eq (w : Nat) (s : Fin (2 ^ b.FFTSize)) (k : Fin 4) :
    b.polOut regs (biplexEven A B) (biplexOdd A B) (w * 2 ^ b.FFTSize + s) k =
      separate b.floatingPoint (A w) (B w) s k := by
  rw [polOut, Nat.mul_comm w, Nat.mul_add_mod, Nat.mod_eq_of_lt s.isLt, Nat.mul_comm _ w]
  split
  · next hs => rw [reversed_eq hb regs A B w s hs, conj_separate]
  · next hs => rw [spectra_eq hb regs A B w s (by omega)]

omit hb in
/-- There are registers to start from. -/
theorem Drawn.nonempty_regs (hb : b.Drawn) : Nonempty b.Regs := by
  have zero : Cplx K := ⟨0, 0⟩
  have hword : Nonempty (Cplx K) := ⟨zero⟩
  have hwords : Nonempty (Fin 4 → Cplx K) := ⟨fun _ => zero⟩
  obtain ⟨even⟩ := Synced.nonempty hword (reorderInit_state hword hb.even)
  obtain ⟨odd⟩ := Synced.nonempty hword (reorderInit_state hword hb.odd)
  obtain ⟨out⟩ := Synced.nonempty hwords (reorderInit_state hwords hb.out)
  exact ⟨even, odd, out, fun _ => zero, fun _ => zero, fun _ => zero, fun _ _ => zero⟩

omit hb in
/-- What is drawn, as a whole. -/
theorem exists_separate {F : Nat} (hF : F ≠ 0) (floatingPoint : Bool) :
    ∃ b : BiRealUnscr4x K, biRealUnscr4xInit F floatingPoint = some b ∧ Nonempty b.Regs ∧
      ∀ (regs : b.Regs) (A B : Nat → Fin (2 ^ F) → Cplx K) (w : Nat) (s : Fin (2 ^ F)) (k : Fin 4),
        b.polOut regs (biplexEven A B) (biplexOdd A B) (w * 2 ^ F + s) k =
          separate floatingPoint (A w) (B w) s k := by
  obtain ⟨b, hinit, hb, hsize, hfloat⟩ := exists_drawn (K := K) hF floatingPoint
  refine ⟨b, hinit, hb.nonempty_regs, ?_⟩
  subst hsize hfloat
  exact fun regs A B => polOut_eq hb regs A B

end BiRealUnscr4x

end

/-! ## The spectra as complex numbers -/

section

open Complex ComplexConjugate

def Cplx.toComplex (z : Cplx ℝ) : ℂ := ⟨z.re, z.im⟩

/-- Without the scaling in `hilbert` the outputs are twice as large. -/
def gain (floatingPoint : Bool) : ℂ := if floatingPoint then 2 else 1

/-- `hilbert` separates two real signals that were transformed as one complex signal. -/
theorem toComplex_hilbert (floatingPoint : Bool) (a b : Cplx ℝ) :
    (hilbert floatingPoint a b).1.toComplex =
      gain floatingPoint * ((a.toComplex + conj b.toComplex) / 2) ∧
    (hilbert floatingPoint a b).2.toComplex =
      gain floatingPoint * ((a.toComplex - conj b.toComplex) / (2 * I)) := by
  have hdiv : ∀ z : ℂ, z / (2 * I) = -(z * I) / 2 := by
    intro z
    field_simp
    rw [I_sq]
    ring
  rw [hdiv]
  constructor
  · cases floatingPoint <;> apply Complex.ext <;> simp [hilbert, Cplx.toComplex, gain] <;> ring
  · cases floatingPoint <;> apply Complex.ext <;> simp [hilbert, Cplx.toComplex, gain] <;> ring

/--
**The four real spectra.**  For spectra `A w` and `B w` that come in turn from the biplex core, the
four outputs are `(A[s] + conj A[-s]) / 2`, `(A[s] - conj A[-s]) / 2i` and the same for `B`, bin by
bin in natural order, in fixed-point arithmetic, and twice that in floating-point arithmetic.
-/
theorem biRealUnscr4x_outputs {F : Nat} (hF : 3 ≤ F) (floatingPoint : Bool) :
    ∃ b : BiRealUnscr4x ℝ, biRealUnscr4xInit F floatingPoint = some b ∧
      ∀ (regs : b.Regs) (A B : Nat → Fin (2 ^ F) → Cplx ℝ) (w : Nat) (s : Fin (2 ^ F)),
        let pol := fun k =>
          (b.polOut regs (biplexEven A B) (biplexOdd A B) (w * 2 ^ F + s) k).toComplex
        let a := fun s => (A w s).toComplex
        let b := fun s => (B w s).toComplex
        pol 0 = gain floatingPoint * ((a s + conj (a (-s))) / 2) ∧
        pol 1 = gain floatingPoint * ((a s - conj (a (-s))) / (2 * I)) ∧
        pol 2 = gain floatingPoint * ((b s + conj (b (-s))) / 2) ∧
        pol 3 = gain floatingPoint * ((b s - conj (b (-s))) / (2 * I)) := by
  obtain ⟨b, hinit, -, hpol⟩ :=
    BiRealUnscr4x.exists_separate (K := ℝ) (F := F) (by omega) floatingPoint
  refine ⟨b, hinit, fun regs A B w s => ?_⟩
  obtain ⟨ha₁, ha₂⟩ := toComplex_hilbert floatingPoint (A w s) (A w (-s))
  obtain ⟨hb₁, hb₂⟩ := toComplex_hilbert floatingPoint (B w s) (B w (-s))
  dsimp only
  rw [hpol, hpol, hpol, hpol]
  exact ⟨ha₁, ha₂, hb₁, hb₂⟩

/-- Eight bins in fixed-point arithmetic: of ones on all bins the first output is one. -/
theorem biRealUnscr4x_outputs_ones :
    ∃ b : BiRealUnscr4x ℝ, biRealUnscr4xInit 3 false = some b ∧
      ∀ regs : b.Regs, (b.polOut regs (biplexEven (F := 3) (fun _ _ => ⟨1, 0⟩) fun _ _ => ⟨1, 0⟩)
        (biplexOdd (F := 3) (fun _ _ => ⟨1, 0⟩) fun _ _ => ⟨1, 0⟩) 5 0).toComplex = 1 := by
  obtain ⟨b, hinit, h⟩ := biRealUnscr4x_outputs (F := 3) (by omega) false
  refine ⟨b, hinit, fun regs => ?_⟩
  obtain ⟨h₀, -⟩ := h regs (fun _ _ => ⟨1, 0⟩) (fun _ _ => ⟨1, 0⟩) 0 5
  refine h₀.trans ?_
  apply Complex.ext <;> simp [gain, Cplx.toComplex]

/-- In floating-point arithmetic it is two, not half of the sum. -/
theorem biRealUnscr4x_doubles :
    ∃ b : BiRealUnscr4x ℝ, biRealUnscr4xInit 3 true = some b ∧ ∃ regs : b.Regs,
      let A : Nat → Fin (2 ^ 3) → Cplx ℝ := fun _ _ => ⟨1, 0⟩
      let pol := b.polOut regs (biplexEven A A) (biplexOdd A A) (0 * 2 ^ 3 + (5 : Fin (2 ^ 3)))
      (pol 0).toComplex = 2 ∧
        (pol 0).toComplex ≠ ((A 0 5).toComplex + conj (A 0 (-5)).toComplex) / 2 := by
  obtain ⟨b, hinit, ⟨regs⟩, hpol⟩ :=
    BiRealUnscr4x.exists_separate (K := ℝ) (F := 3) (by omega) true
  let A : Nat → Fin (2 ^ 3) → Cplx ℝ := fun _ _ => ⟨1, 0⟩
  have htwo : (BiRealUnscr4x.separate true (A 0) (A 0) 5 0).toComplex = 2 := by
    apply Complex.ext <;> simp [A, BiRealUnscr4x.separate, hilbert, Cplx.toComplex]
    norm_num
  have hone : ((A 0 5).toComplex + conj (A 0 (-5)).toComplex) / 2 = 1 := by
    apply Complex.ext <;> simp [A, Cplx.toComplex]
  refine ⟨b, hinit, regs, ?_⟩
  dsimp only
  rw [hpol regs A A 0 5 0, htwo, hone]
  norm_num

end

end MlibDevel.CasperLibrary
