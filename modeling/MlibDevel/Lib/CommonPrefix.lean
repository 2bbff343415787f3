import Mathlib.Data.List.Lex
import Mathlib.Order.Lattice

/-!
# Longest common prefix and lexicographic order

A sorted list of strings can be stored by writing, for each entry, only how many leading
characters it shares with the entry before it.  A search then never rebuilds an entry: it tracks
how many characters of the key match the current entry and compares that number with the shared
length of the next one.  The facts that make this sound are stated here over any linear order.

* `lcp_eq_of_lcp_lt` — an entry that shares more with its predecessor than the key does matches
  the key no further than the predecessor did
* `lt_of_lcp_lt` — an entry that shares less has moved past the key
* `lt_of_lcp_eq_length` — an entry that properly extends the key comes after it
-/

namespace MlibDevel.Lib

variable {α : Type*}

/-- Number of leading elements two lists have in common. -/
def lcp [DecidableEq α] : List α → List α → Nat
  | a :: l, b :: m => if a = b then lcp l m + 1 else 0
  | _, _ => 0

section Basic

variable [DecidableEq α]

@[simp] theorem lcp_nil_left (m : List α) : lcp [] m = 0 := by cases m <;> rfl

@[simp] theorem lcp_nil_right (l : List α) : lcp l [] = 0 := by cases l <;> rfl

@[simp] theorem lcp_cons_self (a : α) (l m : List α) : lcp (a :: l) (a :: m) = lcp l m + 1 := by
  simp [lcp]

theorem lcp_cons_ne {a b : α} (h : a ≠ b) (l m : List α) : lcp (a :: l) (b :: m) = 0 := by
  simp [lcp, h]

theorem lcp_comm : ∀ l m : List α, lcp l m = lcp m l
  | [], m => by simp
  | _ :: _, [] => by simp
  | a :: l, b :: m => by
    by_cases h : a = b
    · subst h; simp [lcp_comm l m]
    · rw [lcp_cons_ne h, lcp_cons_ne (Ne.symm h)]

theorem lcp_le_left : ∀ l m : List α, lcp l m ≤ l.length
  | [], m => by simp
  | _ :: _, [] => by simp
  | a :: l, b :: m => by
    by_cases h : a = b
    · subst h
      have := lcp_le_left l m
      simp; omega
    · simp [lcp_cons_ne h]

theorem lcp_le_right (l m : List α) : lcp l m ≤ m.length := by
  rw [lcp_comm]; exact lcp_le_left m l

/-- The two lists agree on their common prefix. -/
theorem take_lcp : ∀ l m : List α, l.take (lcp l m) = m.take (lcp l m)
  | [], m => by simp
  | _ :: _, [] => by simp
  | a :: l, b :: m => by
    by_cases h : a = b
    · subst h; simp [take_lcp l m]
    · simp [lcp_cons_ne h]

/-- A prefix that agrees counts in full; what follows it is counted on its own. -/
theorem lcp_append_append : ∀ p l m : List α, lcp (p ++ l) (p ++ m) = p.length + lcp l m
  | [], l, m => by simp
  | a :: p, l, m => by
    simp [lcp_append_append p l m]; omega

/-- Agreement below the common prefix is inherited by any shorter length. -/
theorem take_eq_of_le_lcp {l m : List α} {n : Nat} (h : n ≤ lcp l m) : l.take n = m.take n := by
  have h' := congrArg (List.take n) (take_lcp l m)
  simpa [List.take_take, Nat.min_eq_left h] using h'

/-- Dropping a shared prefix from both lists shortens what they share by as much. -/
theorem lcp_drop_drop {n : Nat} {l m : List α} (h : n ≤ lcp l m) :
    lcp (l.drop n) (m.drop n) = lcp l m - n := by
  have hp := take_eq_of_le_lcp h
  have happ := lcp_append_append (l.take n) (l.drop n) (m.drop n)
  rw [List.take_append_drop, hp, List.take_append_drop, List.length_take] at happ
  have := lcp_le_right l m
  omega

theorem lcp_self (l : List α) : lcp l l = l.length := by
  have h := lcp_append_append l ([] : List α) []
  simpa using h

/-- Lists whose common prefix is all of both are equal. -/
theorem eq_of_lcp_eq_length {l m : List α} (hl : lcp l m = l.length) (hm : lcp l m = m.length) :
    l = m := by
  have h := take_lcp l m
  rwa [hl, List.take_length, ← hl, hm, List.take_length] at h

/-- The converse: agreement on `n` elements that both lists have puts `n` below `lcp`. -/
theorem le_lcp_of_take_eq : ∀ {n : Nat} {l m : List α},
    l.take n = m.take n → n ≤ l.length → n ≤ m.length → n ≤ lcp l m
  | 0, _, _, _, _, _ => Nat.zero_le _
  | n + 1, [], _, _, hl, _ => by simp at hl
  | n + 1, _ :: _, [], _, _, hm => by simp at hm
  | n + 1, a :: l, b :: m, h, hl, hm => by
    simp only [List.take_succ_cons, List.cons.injEq] at h
    obtain ⟨rfl, h⟩ := h
    have := le_lcp_of_take_eq h (by simpa using hl) (by simpa using hm)
    simp; omega

/--
If `f` shares more with `e` than `k` does, then `k` leaves `f` exactly where it leaves `e`.
-/
theorem lcp_eq_of_lcp_lt : ∀ {e f k : List α}, lcp e k < lcp e f → lcp f k = lcp e k
  | [], _, _, h => by simp at h
  | _ :: _, [], _, h => by simp at h
  | a :: e, b :: f, k, h => by
    by_cases hab : a = b
    · subst hab
      cases k with
      | nil => simp
      | cons c k =>
        by_cases hac : a = c
        · subst hac
          simp only [lcp_cons_self, Nat.add_lt_add_iff_right] at h
          simp [lcp_eq_of_lcp_lt h]
        · rw [lcp_cons_ne hac, lcp_cons_ne hac]
    · rw [lcp_cons_ne hab] at h
      simp at h

end Basic

section Order

variable [LinearOrder α]

/--
If `f` comes after `e` and shares less with it than `k` does, then `f` comes after `k` as well.
-/
theorem lt_of_lcp_lt : ∀ {e f k : List α}, e < f → lcp e f < lcp e k → k < f
  | [], _, _, _, h => by simp at h
  | _ :: _, [], _, hlt, _ => by simp at hlt
  | _ :: _, _ :: _, [], _, h => by simp at h
  | a :: e, b :: f, c :: k, hlt, h => by
    by_cases hac : a = c
    · subst hac
      rcases List.cons_lt_cons_iff.mp hlt with hab | ⟨rfl, hef⟩
      · exact List.cons_lt_cons_iff.mpr (Or.inl hab)
      · simp only [lcp_cons_self, Nat.add_lt_add_iff_right] at h
        exact List.cons_lt_cons_iff.mpr (Or.inr ⟨rfl, lt_of_lcp_lt hef h⟩)
    · rw [lcp_cons_ne hac] at h
      simp at h

/-- A list that properly extends `k` comes after `k`. -/
theorem lt_of_lcp_eq_length : ∀ {k e : List α}, lcp e k = k.length → k.length < e.length → k < e
  | [], [], _, h => by simp at h
  | [], _ :: _, _, _ => List.nil_lt_cons _ _
  | _ :: _, [], _, h => by simp at h
  | c :: k, a :: e, h, hlen => by
    by_cases hac : a = c
    · subst hac
      simp only [lcp_cons_self, List.length_cons, Nat.add_right_cancel_iff] at h
      exact List.cons_lt_cons_iff.mpr
        (Or.inr ⟨rfl, lt_of_lcp_eq_length h (by simpa using hlen)⟩)
    · rw [lcp_cons_ne hac] at h
      simp at h

/-- Of two lists in order, the later one is not a prefix of the earlier one. -/
theorem lcp_lt_length_of_lt {e f : List α} (h : e < f) : lcp e f < f.length := by
  have hle := lcp_le_right e f
  rcases Nat.lt_or_ge (lcp e f) f.length with hlt | hge
  · exact hlt
  exfalso
  have hf : lcp e f = f.length := by omega
  rcases Nat.lt_or_ge f.length e.length with hlt | hge'
  · exact lt_asymm h (lt_of_lcp_eq_length hf hlt)
  · have he : lcp e f = e.length := by
      have := lcp_le_left e f
      omega
    exact absurd h (by rw [eq_of_lcp_eq_length he hf]; exact lt_irrefl f)

end Order

end MlibDevel.Lib
