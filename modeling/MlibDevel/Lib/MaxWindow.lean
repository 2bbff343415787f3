import Mathlib.Algebra.Order.Group.Defs
import Mathlib.Algebra.Order.Sub.Basic
import Mathlib.Algebra.Order.Group.Unbundled.Basic

/-!
# Windows of largest sum

A sequence is given by its partial sums: `p k` is the sum of what comes before `k`, so a window from
`b` to `e` has the sum `p (e + 1) - p b`.  Going through the sequence once, one keeps where a window
that ends here begins best (`FirstMin`) and the best window so far (`Picked`).  Of equal windows the
last end and the first begin are picked.
-/

namespace MlibDevel.Lib

variable {α : Type} [LinearOrder α]

/-! ## The best begin -/

/-- Of the partial sums before `n` the one at `b` is the first of the smallest. -/
structure FirstMin (p : Nat → α) (n b : Nat) : Prop where
  lt : b < n
  le : ∀ k < n, p b ≤ p k
  first : ∀ k < b, p b < p k

section

variable {p : Nat → α} {n b : Nat}

theorem FirstMin.one : FirstMin p 1 0 where
  lt := Nat.zero_lt_one
  le := fun k hk => by rw [Nat.lt_one_iff.mp hk]
  first := fun k hk => absurd hk (Nat.not_lt_zero k)

/-- A window that would be worth less than nothing is not continued. -/
theorem FirstMin.succ_of_lt (h : FirstMin p n b) (hlt : p n < p b) : FirstMin p (n + 1) n := by
  have hall : ∀ k < n, p n < p k := fun k hk => lt_of_lt_of_le hlt (h.le k hk)
  refine ⟨Nat.lt_succ_self n, ?_, hall⟩
  intro k hk
  rcases Nat.lt_or_ge k n with hold | hnew
  · exact le_of_lt (hall k hold)
  · rw [show k = n by omega]

/-- Any other is. -/
theorem FirstMin.succ_of_le (h : FirstMin p n b) (hle : p b ≤ p n) : FirstMin p (n + 1) b := by
  refine ⟨Nat.lt_succ_of_lt h.lt, ?_, h.first⟩
  intro k hk
  rcases Nat.lt_or_ge k n with hold | hnew
  · exact h.le k hold
  · rwa [show k = n by omega]

end

/-! ## The best window -/

variable [AddCommGroup α]

/-- Of the windows before `n` the one from `b` to `e` is picked. -/
structure Picked (p : Nat → α) (n b e : Nat) : Prop where
  lt : e < n
  begin : FirstMin p (e + 1) b
  best : ∀ b' e', b' ≤ e' → e' < n → p (e' + 1) - p b' ≤ p (e + 1) - p b
  last : ∀ b' e', b' ≤ e' → e < e' → e' < n → p (e' + 1) - p b' < p (e + 1) - p b

variable {p : Nat → α} {n b e : Nat}

theorem Picked.one : Picked p 1 0 0 where
  lt := Nat.zero_lt_one
  begin := FirstMin.one
  best := fun b' e' hle hlt => by
    obtain rfl : e' = 0 := Nat.lt_one_iff.mp hlt
    obtain rfl : b' = 0 := Nat.le_zero.mp hle
    exact le_refl _
  last := fun b' e' _ hlo hhi => absurd hhi (by omega)

theorem Picked.le (h : Picked p n b e) : b ≤ e := Nat.le_of_lt_succ h.begin.lt

variable [IsOrderedAddMonoid α]

/-- Of the windows that end here none is worth more than the one with the best begin. -/
theorem FirstMin.window_le (h : FirstMin p (n + 1) b) {k : Nat} (hk : k ≤ n) :
    p (n + 1) - p k ≤ p (n + 1) - p b := sub_le_sub_left (h.le k (Nat.lt_succ_of_le hk)) _

/-- The window that ends here is picked if it is worth as much. -/
theorem Picked.replace {c : Nat} (h : Picked p n b e) (hc : FirstMin p (n + 1) c)
    (hle : p (e + 1) - p b ≤ p (n + 1) - p c) : Picked p (n + 1) c n := by
  refine ⟨Nat.lt_succ_self n, hc, ?_, ?_⟩
  · intro b' e' hb' he'
    rcases Nat.lt_or_ge e' n with hold | hnew
    · exact le_trans (h.best b' e' hb' hold) hle
    · obtain rfl : e' = n := by omega
      exact hc.window_le hb'
  · intro b' e' _ hlo hhi
    omega

/-- Otherwise the old one stays. -/
theorem Picked.keep {c : Nat} (h : Picked p n b e) (hc : FirstMin p (n + 1) c)
    (hlt : p (n + 1) - p c < p (e + 1) - p b) : Picked p (n + 1) b e := by
  have hnew : ∀ b' ≤ n, p (n + 1) - p b' < p (e + 1) - p b :=
    fun b' hb' => lt_of_le_of_lt (hc.window_le hb') hlt
  refine ⟨Nat.lt_succ_of_lt h.lt, h.begin, ?_, ?_⟩
  · intro b' e' hb' he'
    rcases Nat.lt_or_ge e' n with hold | hge
    · exact h.best b' e' hb' hold
    · obtain rfl : e' = n := by omega
      exact le_of_lt (hnew b' hb')
  · intro b' e' hb' hlo hhi
    rcases Nat.lt_or_ge e' n with hold | hge
    · exact h.last b' e' hb' hlo hold
    · obtain rfl : e' = n := by omega
      exact hnew b' hb'

/-- A window that begins earlier is worth less. -/
theorem Picked.earlier (h : Picked p n b e) {b' : Nat} (hb' : b' < b) :
    p (e + 1) - p b' < p (e + 1) - p b := sub_lt_sub_left (h.begin.first b' hb') _

end MlibDevel.Lib
