import Mathlib.Algebra.BigOperators.Group.List.Basic
import Mathlib.Algebra.Order.Ring.Int
import MlibDevel.Lib.MaxWindow

/-!
# The best calibration window (`find_cal_area` of `qdr.py`)

The running sum starts with the first element and the loop adds it once more, so a positive first
element counts twice (`counted`).  What is found is the best window if this makes no difference
(`bestWindow_found_iff`).
-/

namespace MlibDevel.Qdr

open Lib

/-! ## The function -/

/-- The variables of `find_cal_area`. -/
structure CalScan where
  maxSoFar : Int
  maxEndingHere : Int
  beginIndex : Nat
  beginTemp : Nat
  endIndex : Nat
  deriving DecidableEq, Repr

/-- The first `if` of the loop, which goes on with a running sum or begins a new one. -/
def CalScan.extend (s : CalScan) (x : Int) (i : Nat) : CalScan :=
  if s.maxEndingHere < 0 then { s with maxEndingHere := x, beginTemp := i }
  else { s with maxEndingHere := s.maxEndingHere + x }

/-- The second `if` of the loop. -/
def CalScan.record (s : CalScan) (i : Nat) : CalScan :=
  if s.maxEndingHere ≥ s.maxSoFar then
    { s with maxSoFar := s.maxEndingHere, beginIndex := s.beginTemp, endIndex := i }
  else s

/-- A pass of the loop, for an element and its index. -/
def CalScan.step (s : CalScan) (x : Int × Nat) : CalScan := (s.extend x.1 x.2).record x.2

/-- `find_cal_area`: the sum, the begin and the end.  The empty list is an `IndexError`. -/
def findCalArea : List Int → Option (Int × Nat × Nat)
  | [] => none
  | a :: rest =>
    let s := (a :: rest).zipIdx.foldl CalScan.step ⟨a, a, 0, 0, 0⟩
    some (s.maxSoFar, s.beginIndex, s.endIndex)

/-! ## Best windows -/

/-- The sum of the elements from `b` to `e`. -/
def windowSum (l : List Int) (b e : Nat) : Int := ((l.take (e + 1)).drop b).sum

/-- `sum` is the sum of the elements from `b` to `e`, and no window has a larger one. -/
structure BestWindow (l : List Int) (sum : Int) (b e : Nat) : Prop where
  le : b ≤ e
  lt : e < l.length
  sum_eq : sum = windowSum l b e
  best : ∀ b' e', b' ≤ e' → e' < l.length → windowSum l b' e' ≤ sum

/--
Some window that does not begin with the first element is worth as much as each one that does and
ends before it, and more than each one that does and ends with it or later, with the first element
counted twice.
-/
def LaterWindowWins (l : List Int) : Prop :=
  ∃ b e, 1 ≤ b ∧ b ≤ e ∧ e < l.length ∧
    (∀ k < e, l.headD 0 + windowSum l 0 k ≤ windowSum l b e) ∧
    ∀ k, e ≤ k → k < l.length → l.headD 0 + windowSum l 0 k < windowSum l b e

/-- Counting a positive first element twice makes no difference. -/
def CountedOnce (l : List Int) : Prop := l.headD 0 ≤ 0 ∨ LaterWindowWins l

theorem windowSum_eq (l : List Int) {b e : Nat} (h : b ≤ e) :
    windowSum l b e = (l.take (e + 1)).sum - (l.take b).sum := by
  have hsplit := List.sum_take_add_sum_drop (l.take (e + 1)) b
  rw [List.take_take, Nat.min_eq_left (Nat.le_succ_of_le h)] at hsplit
  rw [windowSum]
  omega

/-! ## What the loop finds -/

/-- The partial sums, with a positive first element counted twice. -/
def counted (l : List Int) (k : Nat) : Int :=
  if k = 0 then 0 else max (l.headD 0) 0 + (l.take k).sum

/-- The invariant of the loop over a sequence with the partial sums `p`: `n` elements have been
taken into the running sum, and `m` into the best one. -/
structure CalScan.Scanned (p : Nat → Int) (n m : Nat) (s : CalScan) : Prop where
  first : FirstMin p n s.beginTemp
  here : s.maxEndingHere = p n - p s.beginTemp
  picked : Picked p m s.beginIndex s.endIndex
  best : s.maxSoFar = p (s.endIndex + 1) - p s.beginIndex

namespace CalScan

variable {p : Nat → Int} {n m : Nat} {s : CalScan}

theorem Scanned.extend (h : s.Scanned p n m) {x : Int} (hx : p (n + 1) = p n + x) :
    (s.extend x n).Scanned p (n + 1) m := by
  have hhere := h.here
  unfold CalScan.extend
  split
  · next hneg =>
    refine ⟨h.first.succ_of_lt (by omega), ?_, h.picked, h.best⟩
    show x = p (n + 1) - p n
    omega
  · next hpos =>
    refine ⟨h.first.succ_of_le (by omega), ?_, h.picked, h.best⟩
    show s.maxEndingHere + x = p (n + 1) - p s.beginTemp
    omega

theorem Scanned.record (h : s.Scanned p (n + 1) n) : (s.record n).Scanned p (n + 1) (n + 1) := by
  have hhere := h.here
  have hbest := h.best
  unfold CalScan.record
  split
  · next hge =>
    have hle : p (s.endIndex + 1) - p s.beginIndex ≤ p (n + 1) - p s.beginTemp := by omega
    exact ⟨h.first, hhere, h.picked.replace h.first hle, hhere⟩
  · next hlt =>
    have hless : p (n + 1) - p s.beginTemp < p (s.endIndex + 1) - p s.beginIndex := by omega
    exact ⟨h.first, hhere, h.picked.keep h.first hless, hbest⟩

/-- A pass of the loop. -/
theorem Scanned.step (h : s.Scanned p n n) {x : Int} (hx : p (n + 1) = p n + x) :
    (s.step (x, n)).Scanned p (n + 1) (n + 1) := (h.extend hx).record

/-- The passes over some elements. -/
theorem Scanned.run : ∀ (l : List Int) {n : Nat} {s : CalScan}, s.Scanned p n n →
    (∀ x ∈ l.zipIdx n, p (x.2 + 1) = p x.2 + x.1) →
    ((l.zipIdx n).foldl CalScan.step s).Scanned p (n + l.length) (n + l.length)
  | [], _, _, h, _ => h
  | x :: l, n, s, h, hp => by
    rw [List.zipIdx_cons, List.foldl_cons, List.length_cons, ← Nat.add_assoc, Nat.add_right_comm]
    rw [List.zipIdx_cons] at hp
    have hnext := h.step (hp (x, n) List.mem_cons_self)
    exact hnext.run l fun y hy => hp y (List.mem_cons_of_mem _ hy)

end CalScan

theorem counted_zero (l : List Int) : counted l 0 = 0 := rfl

theorem counted_pos (l : List Int) {k : Nat} (hk : 0 < k) :
    counted l k = max (l.headD 0) 0 + (l.take k).sum := if_neg (Nat.ne_of_gt hk)

/-- The first pass. -/
theorem scanned_first (a : Int) (rest : List Int) :
    (CalScan.step ⟨a, a, 0, 0, 0⟩ (a, 0)).Scanned (counted (a :: rest)) 1 1 := by
  have hone : counted (a :: rest) 1 = max a 0 + a := by
    rw [counted_pos _ Nat.zero_lt_one, List.take_succ_cons, List.take_zero, List.sum_cons,
      List.sum_nil, List.headD_cons, add_zero]
  have hwindow : counted (a :: rest) 1 - counted (a :: rest) 0 = max a 0 + a := by
    rw [hone, counted_zero, sub_zero]
  rcases lt_or_ge a 0 with hneg | hpos
  · have hstep : CalScan.step ⟨a, a, 0, 0, 0⟩ (a, 0) = ⟨a, a, 0, 0, 0⟩ := by
      unfold CalScan.step CalScan.extend CalScan.record
      rw [if_pos hneg]
      exact if_pos (Int.le_refl a)
    rw [hstep]
    rw [max_eq_right (Int.le_of_lt hneg), zero_add] at hwindow
    exact ⟨FirstMin.one, hwindow.symm, Picked.one, hwindow.symm⟩
  · have hstep : CalScan.step ⟨a, a, 0, 0, 0⟩ (a, 0) = ⟨a + a, a + a, 0, 0, 0⟩ := by
      unfold CalScan.step CalScan.extend CalScan.record
      rw [if_neg (Int.not_lt.mpr hpos)]
      exact if_pos (show a + a ≥ a by omega)
    rw [hstep]
    rw [max_eq_left hpos] at hwindow
    exact ⟨FirstMin.one, hwindow.symm, Picked.one, hwindow.symm⟩

/-- What is found is the best window with a positive first element counted twice. -/
theorem findCalArea_picked (a : Int) (rest : List Int) : ∃ b e,
    findCalArea (a :: rest) = some (counted (a :: rest) (e + 1) - counted (a :: rest) b, b, e) ∧
      Picked (counted (a :: rest)) (a :: rest).length b e := by
  have hsums : ∀ x ∈ rest.zipIdx 1,
      counted (a :: rest) (x.2 + 1) = counted (a :: rest) x.2 + x.1 := by
    intro x hx
    obtain ⟨hpos, hget⟩ := List.mem_zipIdx_iff_le_and_getElem?_sub.mp hx
    have hget' : (a :: rest)[x.2]? = some x.1 := by
      rw [show x.2 = x.2 - 1 + 1 by omega, List.getElem?_cons_succ, hget]
    rw [counted_pos _ (Nat.succ_pos _), counted_pos _ hpos, List.take_add_one, hget',
      Option.toList_some, List.sum_append, List.sum_singleton, add_assoc]
  have hscanned := (scanned_first a rest).run rest hsums
  rw [Nat.add_comm 1 rest.length, ← List.length_cons (a := a)] at hscanned
  refine ⟨_, _, ?_, hscanned.picked⟩
  rw [← hscanned.best, findCalArea, List.zipIdx_cons, List.foldl_cons]

/-! ## When this is the best window -/

variable {l : List Int} {b e : Nat}

theorem counted_window_zero (l : List Int) (e : Nat) :
    counted l (e + 1) - counted l 0 = max (l.headD 0) 0 + windowSum l 0 e := by
  rw [counted_pos _ (Nat.succ_pos e), counted_zero, windowSum_eq l (Nat.zero_le e), List.take_zero,
    List.sum_nil, sub_zero, sub_zero]

theorem counted_window (hb : 0 < b) (h : b ≤ e) :
    counted l (e + 1) - counted l b = windowSum l b e := by
  rw [counted_pos l (show 0 < e + 1 by omega), counted_pos l hb, windowSum_eq l h]
  omega

theorem windowSum_le_counted (h : b ≤ e) : windowSum l b e ≤ counted l (e + 1) - counted l b := by
  rcases Nat.eq_zero_or_pos b with hzero | hpos
  · rw [hzero, counted_window_zero]
    omega
  · rw [counted_window hpos h]

/-- What is picked is a best window if it does not begin with a positive first element. -/
theorem bestWindow_of_picked (h : Picked (counted l) l.length b e)
    (hfirst : l.headD 0 ≤ 0 ∨ 0 < b) : BestWindow l (counted l (e + 1) - counted l b) b e := by
  refine ⟨h.le, h.lt, ?_, ?_⟩
  · rcases Nat.eq_zero_or_pos b with hzero | hpos
    · subst hzero
      rw [counted_window_zero]
      omega
    · exact counted_window hpos h.le
  · intro b' e' hle hlt
    exact le_trans (windowSum_le_counted hle) (h.best b' e' hle hlt)

/-- A window that begins with a positive first element is not worth what is found. -/
theorem not_bestWindow_of_zero (hpos : 0 < l.headD 0) :
    ¬BestWindow l (counted l (e + 1) - counted l 0) 0 e := by
  intro h
  have heq := h.sum_eq
  rw [counted_window_zero] at heq
  omega

/-- When what is picked does not begin with a positive first element. -/
theorem begin_pos_iff (h : Picked (counted l) l.length b e) (hpos : 0 < l.headD 0) :
    0 < b ↔ LaterWindowWins l := by
  have hdouble : ∀ k, counted l (k + 1) - counted l 0 = l.headD 0 + windowSum l 0 k := by
    intro k
    rw [counted_window_zero]
    omega
  constructor
  · intro hb
    refine ⟨b, e, hb, h.le, h.lt, ?_, ?_⟩
    · intro k hk
      rw [← hdouble, ← counted_window hb h.le]
      exact h.best 0 k (Nat.zero_le k) (Nat.lt_trans hk h.lt)
    · intro k hk hlt
      rw [← hdouble, ← counted_window hb h.le]
      rcases Nat.eq_or_lt_of_le hk with heq | hlater
      · rw [← heq]
        exact h.earlier hb
      · exact h.last 0 k (Nat.zero_le k) hlater hlt
  · rintro ⟨b', e', hb', hle, hlt, hbefore, hbehind⟩
    apply Nat.pos_of_ne_zero
    intro hzero
    subst hzero
    have hbest := h.best b' e' hle hlt
    rw [hdouble, counted_window hb' hle] at hbest
    rcases Nat.lt_or_ge e e' with hearly | hlate
    · have hlast := h.last b' e' hle hearly hlt
      rw [hdouble, counted_window hb' hle] at hlast
      have hno := hbefore e hearly
      omega
    · have hno := hbehind e hlate h.lt
      omega

/-- A best window is found if, and only if, counting the first element twice makes no difference. -/
theorem bestWindow_found_iff (a : Int) (rest : List Int) :
    (∃ sum b e, findCalArea (a :: rest) = some (sum, b, e) ∧ BestWindow (a :: rest) sum b e)
      ↔ CountedOnce (a :: rest) := by
  obtain ⟨b, e, hfound, hpicked⟩ := findCalArea_picked a rest
  constructor
  · rintro ⟨sum, b', e', hfound', hbest⟩
    rw [hfound] at hfound'
    obtain ⟨rfl, rfl, rfl⟩ : _ = sum ∧ b = b' ∧ e = e' := by simpa using hfound'
    rcases le_or_gt a 0 with hneg | hpos
    · exact Or.inl hneg
    · right
      rw [← begin_pos_iff hpicked hpos]
      apply Nat.pos_of_ne_zero
      intro hzero
      subst hzero
      exact not_bestWindow_of_zero (l := a :: rest) hpos hbest
  · intro hcond
    refine ⟨_, b, e, hfound, bestWindow_of_picked hpicked ?_⟩
    rcases le_or_gt a 0 with hneg | hpos
    · exact Or.inl hneg
    · rcases hcond with hneg | hwins
      · exact Or.inl hneg
      · exact Or.inr ((begin_pos_iff hpicked hpos).mpr hwins)

end MlibDevel.Qdr
