import Mathlib.Logic.Function.Basic
import Mathlib.Data.Nat.Init

/-!
# Read-before-write memories

A memory with one port is read and then written at one address in every cycle in which it is
enabled.  What is read is the last word that was written there.

If the words come in frames and the addresses within a frame are all different, the memory holds a
frame at a time: `frame_read` says which word of the frame before is read.
-/

namespace MlibDevel.Lib

variable {A α : Type} [DecidableEq A]

/-- A memory after a cycle. -/
def ramStep (mem : A → α) (en : Bool) (addr : A) (din : α) : A → α :=
  if en then Function.update mem addr din else mem

/-- The number of enabled cycles before a cycle. -/
def enabledBefore (en : Nat → Bool) : Nat → Nat
  | 0 => 0
  | t + 1 => enabledBefore en t + if en t then 1 else 0

theorem enabledBefore_succ {en : Nat → Bool} {t : Nat} (h : en t = true) :
    enabledBefore en (t + 1) = enabledBefore en t + 1 := by
  rw [enabledBefore, if_pos h]

theorem enabledBefore_succ_of_not {en : Nat → Bool} {t : Nat} (h : en t = false) :
    enabledBefore en (t + 1) = enabledBefore en t := by
  rw [enabledBefore, h]
  rfl

theorem enabledBefore_mono (en : Nat → Bool) {s t : Nat} (h : s ≤ t) :
    enabledBefore en s ≤ enabledBefore en t := by
  induction t, h using Nat.le_induction with
  | base => exact Nat.le_refl _
  | succ t _ ih => exact Nat.le_trans ih (Nat.le_add_right _ _)

/-- An enabled cycle counts from the next one on. -/
theorem enabledBefore_lt {en : Nat → Bool} {s t : Nat} (hs : en s = true) (h : s < t) :
    enabledBefore en s < enabledBefore en t := by
  have := enabledBefore_mono en (show s + 1 ≤ t from h)
  rw [enabledBefore_succ hs] at this
  omega

/-- Of two enabled cycles the one with fewer before it comes first. -/
theorem lt_of_enabledBefore_lt {en : Nat → Bool} {s t : Nat}
    (h : enabledBefore en s < enabledBefore en t) : s < t := by
  by_contra hge
  have := enabledBefore_mono en (Nat.le_of_not_lt hge)
  omega

/-- Every number below is that of an enabled cycle before. -/
theorem exists_enabled {en : Nat → Bool} {k t : Nat} (h : k < enabledBefore en t) :
    ∃ u, en u = true ∧ enabledBefore en u = k := by
  induction t with
  | zero => exact absurd h (Nat.not_lt_zero k)
  | succ t ih =>
    cases hen : en t with
    | false =>
      rw [enabledBefore_succ_of_not hen] at h
      exact ih h
    | true =>
      rw [enabledBefore_succ hen] at h
      rcases Nat.lt_or_ge k (enabledBefore en t) with hlt | hge
      · exact ih hlt
      · exact ⟨t, hen, by omega⟩

/-- The frame and the position of a word, by its number. -/
theorem frame_position {n k : Nat} (v : Nat) (hk : k < n) :
    (v * n + k) / n = v ∧ (v * n + k) % n = k := by
  have hn : 0 < n := by omega
  rw [Nat.mul_comm, Nat.mul_add_div hn, Nat.mul_add_mod, Nat.div_eq_of_lt hk, Nat.mod_eq_of_lt hk]
  exact ⟨rfl, rfl⟩

/-- The next word is in the same frame. -/
theorem frame_next {n k : Nat} (h : k % n + 1 < n) :
    (k + 1) / n = k / n ∧ (k + 1) % n = k % n + 1 := by
  have hk : k + 1 = k / n * n + (k % n + 1) := by
    rw [← Nat.add_assoc, Nat.mul_comm, Nat.div_add_mod]
  rw [hk]
  exact frame_position (k / n) h

/-- The next word begins a frame. -/
theorem frame_last {n k : Nat} (h : k % n + 1 = n) :
    (k + 1) / n = k / n + 1 ∧ (k + 1) % n = 0 := by
  have hk : k + 1 = (k / n + 1) * n + 0 := by
    have := Nat.div_add_mod k n
    rw [Nat.succ_mul, Nat.add_zero, Nat.mul_comm]
    omega
  rw [hk]
  exact frame_position (k / n + 1) (by omega)

section

variable {mem : Nat → A → α} {en : Nat → Bool} {addr : Nat → A} {din : Nat → α}
  (hmem : ∀ t, mem (t + 1) = ramStep (mem t) (en t) (addr t) (din t))

include hmem

/-- **What is stored at an address is the last word written there.** -/
theorem ram_last_write {s t : Nat} (hst : s < t) (hs : en s = true)
    (hlast : ∀ u, s < u → u < t → en u = true → addr u ≠ addr s) : mem t (addr s) = din s := by
  induction t, hst using Nat.le_induction with
  | base => rw [hmem, ramStep, if_pos hs, Function.update_self]
  | succ t ht ih =>
    have hkept := ih fun u hsu hut => hlast u hsu (Nat.lt_succ_of_lt hut)
    rw [hmem, ramStep]
    split
    · next hen =>
      have hne := hlast t ht (Nat.lt_succ_self t) hen
      rw [Function.update_of_ne hne.symm, hkept]
    · exact hkept

variable {n : Nat} {frameAddr : Nat → Nat → A}
  (haddr : ∀ t, en t = true →
    addr t = frameAddr (enabledBefore en t / n) (enabledBefore en t % n))
  (hinj : ∀ v i j, i < n → j < n → frameAddr v i = frameAddr v j → i = j)

include haddr hinj

/--
**Frame after frame**: position `i` of a frame reads the word that the frame before had at the
position `j` with the same address.
-/
theorem frame_read {v i j t : Nat} (hi : i < n) (hj : j < n)
    (hsame : frameAddr v j = frameAddr (v + 1) i) (ht : en t = true)
    (htn : enabledBefore en t = (v + 1) * n + i) :
    ∃ s, en s = true ∧ enabledBefore en s = v * n + j ∧ mem t (addr t) = din s := by
  have hframes : (v + 1) * n = v * n + n := Nat.succ_mul v n
  obtain ⟨s, hs, hsn⟩ := exists_enabled (show v * n + j < enabledBefore en t by omega)
  refine ⟨s, hs, hsn, ?_⟩
  have hlt : enabledBefore en s < enabledBefore en t := by omega
  have hst : s < t := lt_of_enabledBefore_lt hlt
  have hs_addr : addr s = frameAddr v j := by
    rw [haddr s hs, hsn, (frame_position v hj).1, (frame_position v hj).2]
  have ht_addr : addr t = frameAddr (v + 1) i := by
    rw [haddr t ht, htn, (frame_position _ hi).1, (frame_position _ hi).2]
  have hread : addr t = addr s := by rw [hs_addr, ht_addr, hsame]
  rw [hread]
  refine ram_last_write hmem hst hs fun u hsu hut hu => ?_
  have hlo := enabledBefore_lt hs hsu
  have hhi := enabledBefore_lt hu hut
  rw [haddr u hu]
  rcases Nat.lt_or_ge (enabledBefore en u) ((v + 1) * n) with hfirst | hsecond
  · -- later in the same frame
    obtain ⟨k, hk⟩ := Nat.exists_eq_add_of_lt hlo
    have hpos : enabledBefore en u = v * n + (j + k + 1) := by omega
    rw [hpos, (frame_position v (by omega)).1, (frame_position v (by omega)).2, hs_addr]
    intro heq
    have := hinj v _ _ (by omega) hj heq
    omega
  · -- earlier in the next one
    obtain ⟨k, hk⟩ := Nat.exists_eq_add_of_le hsecond
    rw [hk, (frame_position _ (by omega)).1, (frame_position _ (by omega)).2, ← hread, ht_addr]
    intro heq
    have := hinj (v + 1) _ _ (by omega) hi heq
    omega

end

end MlibDevel.Lib
