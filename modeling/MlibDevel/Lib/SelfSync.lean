import Mathlib.Data.Nat.Init

/-!
# Self-synchronising scramblers

A scrambler adds to each bit a feedback of the bits that it has sent, a descrambler the same
feedback of the bits that it has received.  The feedback looks back over a bounded number of bits.
So both feedbacks are the same as soon as that many bits have come over, whatever was in the
registers before.
-/

namespace MlibDevel.Lib

/-- The last bits on a line, the latest one first: those of `y` up to bit `n`, and `h` before
them. -/
def after (h y : Nat → Bool) (n : Nat) : Nat → Bool := fun k =>
  if k < n then y (n - 1 - k) else h (k - n)

theorem after_of_lt (h y : Nat → Bool) {n k : Nat} (hk : k < n) : after h y n k = y (n - 1 - k) :=
  if_pos hk

theorem after_of_le (h y : Nat → Bool) {n k : Nat} (hk : n ≤ k) : after h y n k = h (k - n) :=
  if_neg (Nat.not_lt.mpr hk)

/-- The next bit is the latest. -/
theorem after_succ_zero (h y : Nat → Bool) (n : Nat) : after h y (n + 1) 0 = y n := by
  rw [after_of_lt h y (Nat.succ_pos n)]
  rfl

/-- The bits before are one place further back. -/
theorem after_succ_succ (h y : Nat → Bool) (n k : Nat) :
    after h y (n + 1) (k + 1) = after h y n k := by
  by_cases hk : k < n
  · rw [after_of_lt h y hk, after_of_lt h y (Nat.succ_lt_succ hk)]
    exact congrArg y (by omega)
  · rw [after_of_le h y (by omega), after_of_le h y (by omega)]
    exact congrArg h (by omega)

section Feedback

variable {f : (Nat → Bool) → Bool} {m n : Nat} {h h' x x' y : Nat → Bool}

/-- The feedback depends on the last `m` bits only. -/
def LooksBack (f : (Nat → Bool) → Bool) (m : Nat) : Prop :=
  ∀ h h' : Nat → Bool, (∀ k < m, h k = h' k) → f h = f h'

/-- Of the bits `x`, those up to `n` are sent as `y`. -/
def Scrambles (f : (Nat → Bool) → Bool) (h x y : Nat → Bool) (n : Nat) : Prop :=
  ∀ i < n, y i = (x i ^^ f (after h y i))

/-- Of the bits `y`, those up to `n` are read as `x`. -/
def Descrambles (f : (Nat → Bool) → Bool) (h y x : Nat → Bool) (n : Nat) : Prop :=
  ∀ i < n, x i = (y i ^^ f (after h y i))

/-- Registers that agree still do so behind the same bits. -/
theorem after_agree (hagree : ∀ k < m, h k = h' k) (n : Nat) :
    ∀ k < m, after h y n k = after h' y n k := by
  intro k hk
  by_cases hkn : k < n
  · rw [after_of_lt h y hkn, after_of_lt h' y hkn]
  · rw [after_of_le h y (by omega), after_of_le h' y (by omega)]
    exact hagree _ (by omega)

/-- **What is sent with a feedback is read with it.** -/
theorem Descrambles.restores (hread : Descrambles f h' y x' n) (hsent : Scrambles f h x y n)
    (hf : LooksBack f m) (hagree : ∀ k < m, h k = h' k) : ∀ i < n, x' i = x i := by
  intro i hi
  have hfeed : f (after h' y i) = f (after h y i) :=
    (hf _ _ (after_agree hagree i)).symm
  rw [hread i hi, hsent i hi, hfeed, Bool.xor_assoc, Bool.xor_self, Bool.xor_false]

end Feedback

end MlibDevel.Lib
