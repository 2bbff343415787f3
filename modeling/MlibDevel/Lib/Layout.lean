import Mathlib.Algebra.Order.Ring.Int
import Mathlib.Data.Int.Order.Basic
import Mathlib.Data.Nat.Log
import Mathlib.Order.Bounds.Defs

/-!
# Blocks of addresses

Where blocks of an address space lie: apart from one another, one inside the other, one above the
other from some address on.  Sizes are rounded up to multiples of an alignment.
-/

namespace MlibDevel.Lib

/-- The addresses from `start` on, `size` of them. -/
structure Block where
  start : Int
  size : Int
  deriving DecidableEq, Repr

namespace Block

/-- The first address after a block. -/
def stop (x : Block) : Int := x.start + x.size

instance : Membership Int Block := ⟨fun x adr => x.start ≤ adr ∧ adr < x.stop⟩

theorem mem_iff {x : Block} {adr : Int} : adr ∈ x ↔ x.start ≤ adr ∧ adr < x.stop := Iff.rfl

/-- No address is in both. -/
def Apart (x y : Block) : Prop := ∀ adr, ¬ (adr ∈ x ∧ adr ∈ y)

/-- `y` lies inside `x`. -/
def Inside (y x : Block) : Prop := x.start ≤ y.start ∧ y.stop ≤ x.stop

instance (y x : Block) : Decidable (Inside y x) :=
  inferInstanceAs (Decidable (x.start ≤ y.start ∧ y.stop ≤ x.stop))

theorem Apart.symm {x y : Block} (h : Apart x y) : Apart y x := fun adr hm => h adr hm.symm

theorem apart_of_stop_le {x y : Block} (h : x.stop ≤ y.start) : Apart x y := by
  rintro adr ⟨hx, hy⟩
  have := hx.2
  have := hy.1
  omega

/-- Of two blocks that are apart and not empty, one ends before the other starts. -/
theorem Apart.le_or_le {x y : Block} (h : Apart x y) (hx : 0 < x.size) (hy : 0 < y.size) :
    x.stop ≤ y.start ∨ y.stop ≤ x.start := by
  by_contra hlt
  rw [not_or, not_le, not_le] at hlt
  unfold stop at hlt
  -- the larger of the two starts is in both blocks
  refine h (max x.start y.start) ⟨⟨le_max_left _ _, ?_⟩, ⟨le_max_right _ _, ?_⟩⟩
  · unfold stop
    exact max_lt (by omega) hlt.1
  · unfold stop
    exact max_lt hlt.2 (by omega)

/-- Blocks one above the other, from an address on. -/
def Stacked : Int → List Block → Prop
  | _, [] => True
  | a, x :: xs => a ≤ x.start ∧ 0 ≤ x.size ∧ Stacked x.stop xs

theorem Stacked.mono {a b : Int} (hab : a ≤ b) : ∀ {xs : List Block}, Stacked b xs → Stacked a xs
  | [], _ => trivial
  | _ :: _, h => ⟨hab.trans h.1, h.2⟩

theorem Stacked.start_le : ∀ {xs : List Block} {a : Int}, Stacked a xs → ∀ x ∈ xs, a ≤ x.start
  | y :: ys, a, h, x, hx => by
    rcases List.mem_cons.mp hx with rfl | hx
    · exact h.1
    · have hstop : y.stop ≤ x.start := h.2.2.start_le x hx
      have := h.1
      have := h.2.1
      unfold stop at hstop
      omega

theorem Stacked.pairwise : ∀ {xs : List Block} {a : Int}, Stacked a xs → xs.Pairwise Apart
  | [], _, _ => List.Pairwise.nil
  | _ :: _, _, h =>
    List.pairwise_cons.mpr ⟨fun y hy => apart_of_stop_le (h.2.2.start_le y hy), h.2.2.pairwise⟩

end Block

/-! ## Rounding up -/

/-- The least multiple of a positive `a` that is at least `n`. -/
def ceilMul (a n : Int) : Int := a * -Int.fdiv (-n) a

theorem dvd_ceilMul (a n : Int) : a ∣ ceilMul a n := Int.dvd_mul_right _ _

theorem ceilMul_eq {a : Int} (ha : 0 < a) (n : Int) : ceilMul a n = -(a * (-n / a)) := by
  unfold ceilMul
  rw [Int.fdiv_eq_ediv_of_nonneg _ ha.le, mul_neg]

theorem le_ceilMul {a : Int} (ha : 0 < a) (n : Int) : n ≤ ceilMul a n := by
  have := Int.mul_ediv_self_le (x := -n) ha.ne'
  rw [ceilMul_eq ha]
  omega

/-- It is the least one. -/
theorem ceilMul_le {a n c : Int} (ha : 0 < a) (hc : a ∣ c) (hn : n ≤ c) : ceilMul a n ≤ c := by
  obtain ⟨k, rfl⟩ := hc
  rw [ceilMul_eq ha, ← mul_neg]
  refine mul_le_mul_of_nonneg_left ?_ ha.le
  have hle : -k ≤ -n / a := by
    rw [Int.le_ediv_iff_mul_le ha, neg_mul, mul_comm]
    omega
  omega

/-- A multiple is not rounded. -/
theorem ceilMul_of_dvd {a n : Int} (ha : 0 < a) (h : a ∣ n) : ceilMul a n = n :=
  le_antisymm (ceilMul_le ha h le_rfl) (le_ceilMul ha n)

/-- A divisor of `n` divides `n` rounded up, if nothing is rounded or it divides the unit. -/
theorem dvd_ceilMul_of_dvd {a c n : Int} (ha : 0 < a) (hn : c ∣ n) (h : a ∣ n ∨ c ∣ a) :
    c ∣ ceilMul a n := by
  rcases h with h | h
  · rw [ceilMul_of_dvd ha h]
    exact hn
  · exact Int.dvd_trans h (dvd_ceilMul a n)

/-- Of two powers of two, the smaller one divides the larger one rounded up to a power of two. -/
theorem pow_dvd_ceilMul (i k : Nat) {j : Nat} (h : j ≤ i) :
    (2 : Int) ^ j ∣ ceilMul (2 ^ k) (2 ^ i) := by
  refine dvd_ceilMul_of_dvd (pow_pos two_pos k) (pow_dvd_pow 2 h) ?_
  rcases le_total k i with hk | hk
  · exact Or.inl (pow_dvd_pow 2 hk)
  · exact Or.inr (pow_dvd_pow 2 (h.trans hk))

/-- The least power of two that is at least `n`. -/
theorem isLeast_pow_clog {n : Int} (hn : 0 ≤ n) :
    IsLeast {m : Int | (∃ k : Nat, m = 2 ^ k) ∧ n ≤ m} (2 ^ Nat.clog 2 n.toNat) := by
  obtain ⟨n, rfl⟩ := Int.eq_ofNat_of_zero_le hn
  rw [Int.toNat_natCast]
  refine ⟨⟨⟨_, rfl⟩, ?_⟩, ?_⟩
  · exact_mod_cast Nat.le_pow_clog Nat.one_lt_two n
  · rintro m ⟨⟨k, rfl⟩, hle⟩
    have hle' : n ≤ 2 ^ k := by exact_mod_cast hle
    exact pow_le_pow_right₀ one_le_two (Nat.clog_le_of_le_pow hle')

end MlibDevel.Lib
