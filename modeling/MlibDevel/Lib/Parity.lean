import Mathlib.Data.Nat.Init

/-!
# Running parity

The exclusive or of a sequence of words, and a register that accumulates it until a flag lets it
start anew.  If one word of the sequence changes, so does the parity.
-/

namespace MlibDevel.Lib

variable {w : Nat}

/-- The exclusive or of the `n` words from `f m` on. -/
def accumulated (f : Nat → BitVec w) (m : Nat) : Nat → BitVec w
  | 0 => 0
  | n + 1 => accumulated f m n ^^^ f (m + n)

theorem accumulated_congr {f g : Nat → BitVec w} {m : Nat} : ∀ {n : Nat},
    (∀ k < n, f (m + k) = g (m + k)) → accumulated f m n = accumulated g m n
  | 0, _ => rfl
  | n + 1, h => by
    rw [accumulated, accumulated, accumulated_congr fun k hk => h k (Nat.lt_succ_of_lt hk),
      h n (Nat.lt_succ_self n)]

theorem accumulated_xor (f g : Nat → BitVec w) (m : Nat) : ∀ n : Nat,
    accumulated (fun t => f t ^^^ g t) m n = accumulated f m n ^^^ accumulated g m n
  | 0 => BitVec.xor_zero.symm
  | n + 1 => by
    rw [accumulated, accumulated, accumulated, accumulated_xor f g m n]
    ac_rfl

theorem accumulated_zero {e : Nat → BitVec w} {m : Nat} : ∀ {n : Nat}, (∀ k < n, e (m + k) = 0) →
    accumulated e m n = 0
  | 0, _ => rfl
  | n + 1, h => by
    rw [accumulated, accumulated_zero fun k hk => h k (Nat.lt_succ_of_lt hk),
      h n (Nat.lt_succ_self n)]
    exact BitVec.xor_zero

/-- If only one word is not zero, it is the parity. -/
theorem accumulated_single {e : Nat → BitVec w} {m j : Nat} : ∀ {n : Nat}, j < n →
    (∀ k < n, k ≠ j → e (m + k) = 0) → accumulated e m n = e (m + j)
  | n + 1, hj, h => by
    rw [accumulated]
    rcases Nat.lt_or_ge j n with hlt | hge
    · rw [accumulated_single hlt fun k hk => h k (Nat.lt_succ_of_lt hk),
        h n (Nat.lt_succ_self n) (Nat.ne_of_gt hlt)]
      exact BitVec.xor_zero
    · have hn : n = j := by omega
      subst hn
      rw [accumulated_zero fun k hk => h k (Nat.lt_succ_of_lt hk) (Nat.ne_of_lt hk)]
      exact BitVec.zero_xor

/-- A register that has been started anew holds the parity of the words since then. -/
theorem register_accumulated {r f : Nat → BitVec w} {clear : Nat → Bool} {m : Nat}
    (hstep : ∀ t, r (t + 1) = if clear t then f t else r t ^^^ f t) (hclear : clear m = true) :
    ∀ n : Nat, (∀ t, m < t → t ≤ m + n → clear t = false) → r (m + (n + 1)) =
      accumulated f m (n + 1)
  | 0, _ => by
    show r (m + 1) = 0 ^^^ f m
    rw [hstep m, hclear, if_pos rfl]
    exact BitVec.zero_xor.symm
  | n + 1, h => by
    have ih := register_accumulated hstep hclear n fun t hlo hhi => h t hlo (by omega)
    show r (m + (n + 1) + 1) = accumulated f m (n + 1) ^^^ f (m + (n + 1))
    rw [hstep, h (m + (n + 1)) (by omega) (by omega), if_neg Bool.false_ne_true, ih]

end MlibDevel.Lib
