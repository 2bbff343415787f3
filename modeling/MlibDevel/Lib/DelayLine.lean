import Mathlib.Data.Nat.Init

/-!
# Delay lines

A value that is shifted into a row of registers passes by each of them, one cycle after the other.
-/

namespace MlibDevel.Lib

variable {α : Type} {n : Nat}

/-- The values move on by one register, and `x` comes into the first. -/
def shiftInto (x : α) (r : Fin n → α) : Fin n → α := fun k =>
  if k.val = 0 then x else r ⟨k.val - 1, Nat.lt_of_le_of_lt (Nat.sub_le _ _) k.isLt⟩

section Run

variable {input : Nat → α} (line : Nat → Fin n → α)
  (hline : ∀ t, line (t + 1) = shiftInto (input t) (line t))

include hline

/-- What has come in `k` cycles before is in the register `k`. -/
theorem delayed (k : Fin n) (u : Nat) : line (u + (k.val + 1)) k = input u := by
  obtain ⟨k, hk⟩ := k
  induction k with
  | zero =>
    rw [hline]
    exact if_pos rfl
  | succ k ih =>
    have hprev := ih (by omega)
    rw [← hprev]
    show line (u + (k + 1) + 1) ⟨k + 1, hk⟩ = _
    rw [hline]
    exact if_neg (Nat.succ_ne_zero k)

/-- Before, there is what was in the row at first. -/
theorem not_yet_delayed {x : α} (hstart : ∀ k, line 0 k = x) (t : Nat) :
    ∀ k : Fin n, t ≤ k.val → line t k = x := by
  induction t with
  | zero => exact fun k _ => hstart k
  | succ t ih =>
    intro k hk
    rw [hline]
    have hne : k.val ≠ 0 := by omega
    rw [shiftInto, if_neg hne]
    exact ih _ (by show t ≤ k.val - 1; omega)

end Run

end MlibDevel.Lib
