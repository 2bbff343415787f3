import Mathlib.Data.Nat.Factorial.Basic
import Mathlib.Order.Bounds.Basic
import MlibDevel.CasperLibrary.Reorder
import MlibDevel.Lib.Doubles

/-!
# The order of a map as it is indexed (`compute_order.m`)

The elements of a map are numbered from 0 on, but MATLAB counts from 1 on, so the loop reads its
entries with one added.  The cycles it finds are those of `computeOrder` (`whileLoop_start`).

The order is a double, and the order of a permutation of some hundred elements can be too long for
one (`computeOrderOf_primeCycles`).

Main result: `computeOrderOf_least` (the number of times is the least, up to `2 ^ 53`).
-/

namespace MlibDevel.CasperLibrary

open Lib

/-- `map(k)` -/
def entry (map : List Nat) (k : Int) : Option Nat := if 1 ≤ k then map[(k - 1).toNat]? else none

/-- The `while` loop of `compute_order`.  `fuel` bounds the number of tests. -/
def whileLoop (map : List Nat) (i : Nat) : Nat → Int → Nat → Option Nat
  | 0, _, _ => none
  | fuel + 1, j, curOrder =>
    if j + 1 = i then some curOrder
    else if j < 0 then (entry map i).bind fun j => whileLoop map i fuel j curOrder
    else (entry map (j + 1)).bind fun j => whileLoop map i fuel j (curOrder + 1)

/--
`lcm`: one number times the other divided by the greatest common divisor.  Only the product can be
too long for a double.
-/
def lcmDouble : Rounded → Nat → Rounded
  | .whole a, b => roundDouble (a * (b / a.gcd b))
  | .infinity, _ => .infinity

/-- `compute_order`, with `fuel` tests for each element; the lengths of the cycles are exact. -/
def computeOrderOf (fuel : Nat) (map : List Nat) : Option Rounded :=
  (List.range' 1 map.length).foldlM
    (fun order i => (whileLoop map i fuel (-1) 1).map (lcmDouble order)) (.whole 1)

section

variable {n : Nat} {map : Fin n → Fin n}

/-- The entries of a map, as a list -/
def entries (map : Fin n → Fin n) : List Nat := List.ofFn fun i => (map i).val

theorem length_entries : (entries map).length = n := List.length_ofFn

theorem entry_entries (j : Fin n) : entry (entries map) (j.val + 1) = some (map j).val := by
  have hindex : ((j.val : Int) + 1 - 1).toNat = j.val := by omega
  rw [entry, if_pos (by omega), hindex, entries, List.getElem?_ofFn, dif_pos j.isLt]

/-- From the second test on the loop is that of `cycleLoop`. -/
theorem whileLoop_eq (i : Fin n) : ∀ (fuel : Nat) (j : Fin n) (curOrder : Nat),
    whileLoop (entries map) (i.val + 1) fuel j.val curOrder = cycleLoop map i fuel j curOrder
  | 0, _, _ => rfl
  | fuel + 1, j, curOrder => by
    have htest : (j.val : Int) + 1 = ((i.val + 1 : Nat) : Int) ↔ j = i := by
      rw [← Fin.val_inj]
      omega
    rw [whileLoop, cycleLoop]
    simp only [htest]
    split
    · rfl
    · rw [if_neg (by omega), entry_entries, Option.bind_some, whileLoop_eq i fuel]

/-- The first test is passed, whatever the element. -/
theorem whileLoop_start (i : Fin n) (fuel : Nat) :
    whileLoop (entries map) (i.val + 1) (fuel + 1) (-1) 1 = cycleLoop map i fuel (map i) 1 := by
  have hentry : entry (entries map) (i.val + 1) = some (map i).val := entry_entries i
  rw [whileLoop, if_neg (by omega), if_pos (by decide)]
  push_cast
  rw [hentry, Option.bind_some, whileLoop_eq]

theorem range'_eq_finRange (n : Nat) :
    List.range' 1 n = (List.finRange n).map fun i => i.val + 1 := by
  rw [List.range'_eq_map_range, ← List.map_coe_finRange_eq_range, List.map_map]
  apply List.map_congr_left
  intro i _
  exact Nat.add_comm 1 i.val

/-- A loop whose parts all end. -/
theorem foldlM_some {α β γ : Type} {g : α → Option β} {f : α → β} (hg : ∀ i, g i = some (f i))
    (h : γ → β → γ) : ∀ (l : List α) (a : γ),
    l.foldlM (fun o i => (g i).map (h o)) a = some (l.foldl (fun o i => h o (f i)) a)
  | [], _ => rfl
  | i :: l, a => by
    rw [List.foldlM_cons, hg, List.foldl_cons]
    exact foldlM_some hg h l (h a (f i))

/-- **The indices are right**, and the loop ends. -/
theorem computeOrderOf_eq (hmap : Function.Injective map) :
    computeOrderOf (n + 1) (entries map)
      = some
        ((List.finRange n).foldl (fun o i => lcmDouble o (Function.minimalPeriod map i))
          (.whole 1)) := by
  rw [computeOrderOf, length_entries, range'_eq_finRange, List.foldlM_map]
  refine foldlM_some (fun i => ?_) lcmDouble _ _
  rw [whileLoop_start, cycleLoop_minimalPeriod hmap]

/-- The same with exact numbers. -/
theorem computeOrder_eq_foldl (hmap : Function.Injective map) :
    computeOrder map
      = some ((List.finRange n).foldl (fun o i => o.lcm (Function.minimalPeriod map i)) 1) :=
  foldlM_some (cycleLoop_minimalPeriod hmap) Nat.lcm _ _

theorem dvd_foldl_lcm {α : Type} (f : α → Nat) : ∀ (l : List α) (a : Nat),
    a ∣ l.foldl (fun o i => o.lcm (f i)) a
  | [], a => dvd_refl a
  | i :: l, a => (Nat.dvd_lcm_left a (f i)).trans (dvd_foldl_lcm f l (a.lcm (f i)))

/-- **Up to `2 ^ 53` nothing is rounded.** -/
theorem foldl_lcmDouble {α : Type} (f : α → Nat) : ∀ (l : List α) (a : Nat),
    0 < l.foldl (fun o i => o.lcm (f i)) a →
    l.foldl (fun o i => o.lcm (f i)) a ≤ 2 ^ mantissaBits →
    l.foldl (fun o i => lcmDouble o (f i)) (.whole a)
      = .whole (l.foldl (fun o i => o.lcm (f i)) a)
  | [], _, _, _ => rfl
  | i :: l, a, hpos, hle => by
    rw [List.foldl_cons] at hpos hle ⊢
    have hlcm : a.lcm (f i) ≤ 2 ^ mantissaBits :=
      Nat.le_trans (Nat.le_of_dvd hpos (dvd_foldl_lcm f l _)) hle
    have hstep : lcmDouble (.whole a) (f i) = .whole (a.lcm (f i)) := by
      rw [lcmDouble, ← Nat.mul_div_assoc a (Nat.gcd_dvd_right a (f i))]
      exact roundDouble_of_isDouble (isDouble_of_le hlcm)
    rw [hstep, List.foldl_cons]
    exact foldl_lcmDouble f l _ hpos hle

/-- A permutation comes back to where it was. -/
theorem exists_iterate_eq_id (hmap : Function.Injective map) : ∃ k, 1 ≤ k ∧ map^[k] = id := by
  refine ⟨n.factorial, Nat.factorial_pos n, funext fun i => ?_⟩
  have hle : Function.minimalPeriod map i ≤ Fintype.card (Fin n) := Function.minimalPeriod_le_card
  have hpos := Function.minimalPeriod_pos_of_mem_periodicPts (hmap.mem_periodicPts i)
  rw [Fintype.card_fin] at hle
  exact Function.isPeriodicPt_iff_minimalPeriod_dvd.mpr (Nat.dvd_factorial hpos hle)

/-- The order divides every number of times that gives the identity, so it is the least. -/
theorem computeOrder_isLeast (hmap : Function.Injective map) :
    ∃ order, computeOrder map = some order ∧ IsLeast {k | 1 ≤ k ∧ map^[k] = id} order := by
  obtain ⟨order, hfold, hdvd⟩ := computeOrder_eq hmap
  obtain ⟨k, hk, hid⟩ := exists_iterate_eq_id hmap
  have hpos : 1 ≤ order := Nat.pos_of_dvd_of_pos ((hdvd k).mpr hid) hk
  refine ⟨order, hfold, ⟨hpos, (hdvd order).mp (Nat.dvd_refl order)⟩, ?_⟩
  rintro m ⟨hm, hmid⟩
  exact Nat.le_of_dvd hm ((hdvd m).mpr hmid)

/-- Applying the entries is applying the map. -/
theorem iterate_entries (k : Nat) (i : Fin n) :
    (fun x => (entries map).getD x 0)^[k] i.val = (map^[k] i).val := by
  induction k generalizing i with
  | zero => rfl
  | succ k ih =>
    have hentry : (entries map).getD i.val 0 = (map i).val := by
      rw [List.getD_eq_getElem?_getD, entries, List.getElem?_ofFn, dif_pos i.isLt]
      rfl
    rw [Function.iterate_succ_apply, Function.iterate_succ_apply, hentry, ih]

end

/-- A list that permutes `0:n-1` is the entries of a permutation. -/
theorem exists_entries {n : Nat} {map : List Nat} (hmap : map.Perm (List.range n)) :
    ∃ f : Fin n → Fin n, Function.Injective f ∧ map = entries f := by
  have hlen : map.length = n := hmap.length_eq.trans List.length_range
  subst hlen
  have hlt : ∀ i : Fin map.length, map.get i < map.length :=
    fun i => List.mem_range.mp (hmap.mem_iff.mp (List.get_mem map i))
  refine ⟨fun i => ⟨map.get i, hlt i⟩, ?_, (List.ofFn_get map).symm⟩
  intro i j heq
  exact (List.Nodup.get_inj_iff (hmap.nodup_iff.mpr List.nodup_range)).mp (congrArg Fin.val heq)

/-- How often a map of `0:n-1` can be applied until all elements are back. -/
def returns (n : Nat) (map : List Nat) : Set Nat :=
  {k | 1 ≤ k ∧ ∀ x < n, (fun x => map.getD x 0)^[k] x = x}

theorem returns_entries {n : Nat} (f : Fin n → Fin n) :
    returns n (entries f) = {k | 1 ≤ k ∧ f^[k] = id} := by
  ext k
  refine and_congr_right fun _ => ⟨fun hid => funext fun i => ?_, fun hid x hx => ?_⟩
  · have hx := hid i.val i.isLt
    rw [iterate_entries] at hx
    exact Fin.ext hx
  · have hi := @iterate_entries n f k ⟨x, hx⟩
    rw [hid] at hi
    exact hi

/--
**`compute_order` ends, and returns how often to apply a permutation at least until it is the
identity**, if that is at most `2 ^ 53`.
-/
theorem computeOrderOf_least (n : Nat) (map : List Nat) (hmap : map.Perm (List.range n)) :
    ∃ result order, computeOrderOf (n + 1) map = some result ∧ IsLeast (returns n map) order ∧
      (order ≤ 2 ^ 53 → result = .whole order) := by
  obtain ⟨f, hf, rfl⟩ := exists_entries hmap
  obtain ⟨order, hfold, hleast⟩ := computeOrder_isLeast hf
  refine ⟨_, order, computeOrderOf_eq hf, ?_, fun hle => ?_⟩
  · rw [returns_entries]
    exact hleast
  · obtain rfl := Option.some.inj ((computeOrder_eq_foldl hf).symm.trans hfold)
    exact foldl_lcmDouble _ _ 1 hleast.1.1 hle

/-- Cycles of two and three elements -/
theorem computeOrderOf_least_fiveElements : ∃ result order,
    computeOrderOf 6 [1, 0, 3, 4, 2] = some result ∧ IsLeast (returns 5 [1, 0, 3, 4, 2]) order ∧
      (order ≤ 2 ^ 53 → result = .whole order) :=
  computeOrderOf_least 5 [1, 0, 3, 4, 2] (by decide)

/-! ## An order that no double holds -/

/-- A result is a double. -/
theorem isDouble_computeOrderOf {fuel : Nat} {map : List Nat} {x : Nat}
    (h : computeOrderOf fuel map = some (.whole x)) : IsDouble x := by
  have hfold : ∀ (l : List Nat) (a : Rounded), (∀ x, a = .whole x → IsDouble x) →
      l.foldlM (fun order i => (whileLoop map i fuel (-1) 1).map (lcmDouble order)) a
        = some (.whole x) → IsDouble x := by
    intro l
    induction l with
    | nil =>
      intro a ha hx
      exact ha x (Option.some.inj hx)
    | cons i l ih =>
      intro a ha hx
      rw [List.foldlM_cons] at hx
      obtain ⟨b, hb, hl⟩ := Option.bind_eq_some_iff.mp hx
      obtain ⟨c, -, rfl⟩ := Option.map_eq_some_iff.mp hb
      refine ih _ (fun y hy => ?_) hl
      cases a with
      | whole a =>
        rw [lcmDouble] at hy
        exact isDouble_of_roundDouble hy
      | infinity => cases hy
  refine hfold _ (.whole 1) (fun y hy => isDouble_of_le ?_) h
  obtain rfl := Rounded.whole.inj hy
  decide

/-- The map with cycles of the given lengths, from the element `start` on -/
def cyclesFrom : Nat → List Nat → List Nat
  | _, [] => []
  | start, p :: ps => (List.range p).map (fun i => start + (i + 1) % p) ++ cyclesFrom (start + p) ps

/-- The first fifteen primes -/
def primes : List Nat := [2, 3, 5, 7, 11, 13, 17, 19, 23, 29, 31, 37, 41, 43, 47]

/-- A map of 328 elements with a cycle for each of them -/
def primeCycles : List Nat := cyclesFrom 0 primes

/-- How far an element of a cycle has come -/
theorem iterate_cycle {f : Nat → Nat} {start p : Nat} (hp : 0 < p)
    (hf : ∀ i < p, f (start + i) = start + (i + 1) % p) : ∀ k, f^[k] start = start + k % p
  | 0 => by rw [Nat.zero_mod]; rfl
  | k + 1 => by
    rw [Function.iterate_succ_apply', iterate_cycle hp hf k, hf _ (Nat.mod_lt k hp),
      Nat.mod_add_mod]

/-- The lengths of the cycles divide each number of times. -/
theorem dvd_of_mem_returns {n : Nat} {map : List Nat} {k start p : Nat} (hp : 0 < p)
    (hf : ∀ i < p, map.getD (start + i) 0 = start + (i + 1) % p) (hstart : start < n)
    (hk : k ∈ returns n map) : p ∣ k := by
  have hid := hk.2 start hstart
  rw [iterate_cycle hp hf] at hid
  exact Nat.dvd_of_mod_eq_zero (by omega)

theorem primeCycles_perm : primeCycles.Perm (List.range 328) := by decide +kernel

/-- The elements before the cycle of each prime -/
def starts : List (Nat × Nat) := [(2, 3), (5, 5), (10, 7), (17, 11), (28, 13), (41, 17), (58, 19),
  (77, 23), (100, 29), (129, 31), (160, 37), (197, 41), (238, 43), (281, 47)]

theorem starts_cycle : ∀ c ∈ starts, 0 < c.2 ∧ c.1 < 328 ∧
    ∀ i < c.2, primeCycles.getD (c.1 + i) 0 = c.1 + (i + 1) % c.2 := by
  decide +kernel

theorem foldl_lcm_dvd {α : Type} {f : α → Nat} {k : Nat} : ∀ {l : List α} {a : Nat}, a ∣ k →
    (∀ i ∈ l, f i ∣ k) → l.foldl (fun o i => o.lcm (f i)) a ∣ k
  | [], _, ha, _ => ha
  | i :: l, _, ha, hl => by
    rw [List.forall_mem_cons] at hl
    rw [List.foldl_cons]
    exact foldl_lcm_dvd (Nat.lcm_dvd ha hl.1) hl.2

/--
The order of this permutation is 614889782588491410, the product of the primes.  Its odd part is too
long for a double, so whatever is returned, it is another number.
-/
theorem computeOrderOf_primeCycles : primeCycles.Perm (List.range 328) ∧
    ¬∃ fuel order : Nat, computeOrderOf fuel primeCycles = some (.whole order) ∧
      IsLeast (returns 328 primeCycles) order := by
  refine ⟨primeCycles_perm, ?_⟩
  rintro ⟨fuel, order, hresult, hleast, -⟩
  have hdvd : ∀ c ∈ starts, c.2 ∣ order := by
    intro c hc
    obtain ⟨hp, hstart, hf⟩ := starts_cycle c hc
    exact dvd_of_mem_returns hp hf hstart hleast
  have hodd : 307444891294245705 ∣ order := by
    have hproduct : starts.foldl (fun o c => o.lcm c.2) 1 = 307444891294245705 := by
      decide +kernel
    rw [← hproduct]
    exact foldl_lcm_dvd (one_dvd order) hdvd
  have hshort := (isDouble_computeOrderOf hresult).odd_dvd_lt
    (Nat.one_le_iff_ne_zero.mp hleast.1) hodd (by decide +kernel)
  exact absurd hshort (by decide +kernel)

end MlibDevel.CasperLibrary
