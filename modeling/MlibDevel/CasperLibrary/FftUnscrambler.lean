import Mathlib.Algebra.Order.Floor.Ring
import Mathlib.Data.Rat.Floor
import Mathlib.Tactic.Ring
import MlibDevel.CasperLibrary.Reorder
import MlibDevel.CasperLibrary.SquareTransposer

/-!
# The FFT unscrambler (`fft_unscrambler_init.m`)

The FFT puts out its channels on `2 ^ n` ports, a part of the spectrum on each.  The unscrambler
transposes blocks of ports and times and then reorders the times, so that the channels leave in
natural order across the ports.

This needs a frame of at least one block on each port, `2 * n ≤ F`; `fft_unscrambler_init` accepts
`n < F - 2`.  Between the two the map it computes is empty (`mapMat_of_lt`).
-/

namespace MlibDevel.CasperLibrary

open Lib

/-- The parameter check, for the numbers of inputs that the transposer is drawn for. -/
def unscramblerAccepts (F n : Nat) : Prop := 1 ≤ n ∧ ¬((n : Int) ≥ F - 2)

instance decidableUnscramblerAccepts (F n : Nat) : Decidable (unscramblerAccepts F n) :=
  inferInstanceAs (Decidable (_ ∧ _))

/-- `0:last` -/
def colon (last : ℚ) : List Nat := List.range (⌊last⌋ + 1).toNat

/-- `part_mat` -/
def partMat (F n : Nat) : List Nat :=
  (colon ((2 : ℚ) ^ ((F : ℤ) - 2 * n) - 1)).map (· * 2 ^ n)

/-- `map_mat` -/
def mapMat (F n : Nat) : List Nat := (List.range (2 ^ n)).flatMap fun k => (partMat F n).map (· + k)

/-! ## The map -/

/-- A range of ranges is a range. -/
theorem flatMap_range {β : Type} (a b : Nat) (g : Nat → Nat → β) :
    (List.range a).flatMap (fun k => (List.range b).map (g k)) =
      (List.range (a * b)).map fun i => g (i / b) (i % b) := by
  induction a with
  | zero => rw [Nat.zero_mul]; rfl
  | succ a ih =>
    rw [List.range_succ, List.flatMap_append, ih, Nat.succ_mul, List.range_add, List.map_append,
      List.map_map, List.flatMap_singleton]
    congr 1
    refine List.map_congr_left fun k hk => ?_
    have hpos := frame_position a (List.mem_range.mp hk)
    show g a k = g ((a * b + k) / b) ((a * b + k) % b)
    rw [hpos.1, hpos.2]

theorem colon_of_le {F n : Nat} (h : 2 * n ≤ F) :
    colon ((2 : ℚ) ^ ((F : ℤ) - 2 * n) - 1) = List.range (2 ^ (F - 2 * n)) := by
  have hexp : (F : ℤ) - 2 * n = ((F - 2 * n : Nat) : ℤ) := by omega
  have hpow : (2 : ℚ) ^ ((F : ℤ) - 2 * n) - 1 = ((2 ^ (F - 2 * n) - 1 : ℤ) : ℚ) := by
    rw [hexp, zpow_natCast]
    push_cast
    rfl
  rw [colon, hpow, Int.floor_intCast]
  congr 1
  have : (2 ^ (F - 2 * n) - 1 + 1 : ℤ) = ((2 ^ (F - 2 * n) : Nat) : ℤ) := by
    push_cast
    ring
  rw [this, Int.toNat_natCast]

/-- **With less than a block on each port the map is empty.** -/
theorem mapMat_of_lt {F n : Nat} (h : F < 2 * n) : mapMat F n = [] := by
  have hpow : (2 : ℚ) ^ ((F : ℤ) - 2 * n) < 1 := zpow_lt_one_of_neg₀ one_lt_two (by omega)
  have hfloor : ⌊(2 : ℚ) ^ ((F : ℤ) - 2 * n) - 1⌋ < 0 := by
    rw [Int.floor_lt, Int.cast_zero]
    exact sub_neg_of_lt hpow
  have hcolon : colon ((2 : ℚ) ^ ((F : ℤ) - 2 * n) - 1) = [] := by
    rw [colon, Int.toNat_of_nonpos (by omega), List.range_zero]
  rw [mapMat, partMat, hcolon]
  exact List.flatMap_eq_nil_iff.mpr fun _ _ => rfl

/-- Where a position of a frame of `P * Q` words comes from: a block and a time in it. -/
def blockTime (P Q i : Nat) : Nat := i % Q * P + i / Q

theorem blockTime_lt {P Q i : Nat} (hi : i < P * Q) : blockTime P Q i < P * Q := by
  have hQ : 0 < Q := Nat.pos_of_mul_pos_left (Nat.zero_lt_of_lt hi)
  have hdiv : i / Q < P := (Nat.div_lt_iff_lt_mul hQ).mpr hi
  have hmod : i % Q < Q := Nat.mod_lt i hQ
  calc blockTime P Q i
    _ < i % Q * P + P := Nat.add_lt_add_left hdiv _
    _ = (i % Q + 1) * P := (Nat.succ_mul _ _).symm
    _ ≤ Q * P := Nat.mul_le_mul_right P hmod
    _ = P * Q := Nat.mul_comm Q P

theorem blockTime_blockTime {P Q i : Nat} (hi : i < P * Q) :
    blockTime Q P (blockTime P Q i) = i := by
  have hQ : 0 < Q := Nat.pos_of_mul_pos_left (Nat.zero_lt_of_lt hi)
  have hdiv : i / Q < P := (Nat.div_lt_iff_lt_mul hQ).mpr hi
  obtain ⟨hd, hm⟩ := frame_position (i % Q) hdiv
  show (i % Q * P + i / Q) % P * Q + (i % Q * P + i / Q) / P = i
  rw [hd, hm, Nat.mul_comm, Nat.div_add_mod]

/-- A frame on a port consists of blocks. -/
theorem frame_eq_mul {F n : Nat} (h : 2 * n ≤ F) : 2 ^ (F - n) = 2 ^ n * 2 ^ (F - 2 * n) := by
  rw [← Nat.pow_add]
  congr 1
  omega

/-- The parts one after another. -/
theorem mapMat_of_le {F n : Nat} (h : 2 * n ≤ F) :
    mapMat F n = (List.range (2 ^ n * 2 ^ (F - 2 * n))).map
      (blockTime (2 ^ n) (2 ^ (F - 2 * n))) := by
  rw [mapMat, partMat, colon_of_le h]
  refine Eq.trans ?_ (flatMap_range (2 ^ n) (2 ^ (F - 2 * n)) fun k q => q * 2 ^ n + k)
  refine List.flatMap_congr fun k _ => ?_
  rw [List.map_map]
  rfl

theorem mapMat_perm {F n : Nat} (h : 2 * n ≤ F) : (mapMat F n).Perm (List.range (2 ^ (F - n))) := by
  rw [mapMat_of_le h, frame_eq_mul h]
  exact map_range_perm (fun _ => blockTime_lt) fun _ => blockTime_blockTime

theorem mapMat_getElem {F n : Nat} (h : 2 * n ≤ F) {i : Nat} (hi : i < (mapMat F n).length) :
    (mapMat F n)[i] = blockTime (2 ^ n) (2 ^ (F - 2 * n)) i := by
  rw [List.getElem_of_eq (mapMat_of_le h), List.getElem_map, List.getElem_range]

/-! ## The chain -/

/-- In frame `v` port `p` carries channel `p * 2 ^ (F - n) + t` at time `t`. -/
def ScrambledInput {α : Type} (F n : Nat) (x : Nat → Fin (2 ^ n) → α) (ch : Nat → Nat → α) : Prop :=
  ∀ v (p : Fin (2 ^ n)) t, t < 2 ^ (F - n) → x (v * 2 ^ (F - n) + t) p = ch v (p * 2 ^ (F - n) + t)

/--
The block does what it is for: its map is a permutation, and the transposer followed by the reorder
block, which begins `2 ^ n - 1` words later, puts out channel `i * 2 ^ n + p` at time `i` on port
`p`, of every frame.
-/
def Unscrambles (F n : Nat) : Prop :=
  (mapMat F n).Perm (List.range (2 ^ (F - n))) ∧
  ∀ α : Type, ∃ c : Circuit (Sample (Fin (2 ^ n) → α)) (Fin (2 ^ n) → α),
    reorderInit (mapMat F n) = some c ∧
    ∀ (s : c.State) (regs : TransposerRegs n α) (x : Nat → Fin (2 ^ n) → α) (ch : Nat → Nat → α)
      (first : Sample (Fin (2 ^ n) → α)) (input : Nat → Sample (Fin (2 ^ n) → α)),
      ScrambledInput F n x ch →
      Delivers first input (fun k => squareTransposer regs x (k + (2 ^ n - 1))) →
      ∀ (v i t : Nat) (p : Fin (2 ^ n)), i < 2 ^ (F - n) → (input t).en = true →
        wordsBefore input t = (v + 1) * 2 ^ (F - n) + i →
        c.output (c.step s first) input t p = ch v (i * 2 ^ n + p)

/-- The word of the transposer that the map selects. -/
theorem squareTransposer_blockTime {α : Type} {n Q : Nat} (regs : TransposerRegs n α)
    (x : Nat → Fin (2 ^ n) → α) {v i : Nat} (hi : i < 2 ^ n * Q) (p : Fin (2 ^ n)) :
    squareTransposer regs x (v * (2 ^ n * Q) + blockTime (2 ^ n) Q i + (2 ^ n - 1)) p =
      x (v * (2 ^ n * Q) + (i % Q * 2 ^ n + p)) (Fin.ofNat (2 ^ n) (i / Q)) := by
  have hQ : 0 < Q := Nat.pos_of_mul_pos_left (Nat.zero_lt_of_lt hi)
  have hdiv : i / Q < 2 ^ n := (Nat.div_lt_iff_lt_mul hQ).mpr hi
  have htime : v * (2 ^ n * Q) + blockTime (2 ^ n) Q i = (v * Q + i % Q) * 2 ^ n + i / Q := by
    rw [blockTime]
    ring
  obtain ⟨hd, hm⟩ := frame_position (v * Q + i % Q) hdiv
  have hport : Fin.ofNat (2 ^ n) (v * (2 ^ n * Q) + blockTime (2 ^ n) Q i) =
      Fin.ofNat (2 ^ n) (i / Q) := by
    apply Fin.ext
    rw [Fin.val_ofNat, Fin.val_ofNat, htime, hm, Nat.mod_eq_of_lt hdiv]
  rw [squareTransposer_eq, hport, htime, hd]
  congr 1
  ring

/-- The channel there. -/
theorem ScrambledInput.channel {α : Type} {F n Q : Nat} {x : Nat → Fin (2 ^ n) → α}
    {ch : Nat → Nat → α} (h : ScrambledInput F n x ch) (hF : 2 ^ (F - n) = 2 ^ n * Q) (v : Nat)
    {i : Nat} (hi : i < 2 ^ n * Q) (p : Fin (2 ^ n)) :
    x (v * (2 ^ n * Q) + (i % Q * 2 ^ n + p)) (Fin.ofNat (2 ^ n) (i / Q)) =
      ch v (i * 2 ^ n + p) := by
  have hQ : 0 < Q := Nat.pos_of_mul_pos_left (Nat.zero_lt_of_lt hi)
  have hdiv : i / Q < 2 ^ n := (Nat.div_lt_iff_lt_mul hQ).mpr hi
  have htime : i % Q * 2 ^ n + p < 2 ^ (F - n) := by
    calc i % Q * 2 ^ n + (p : Nat)
      _ < i % Q * 2 ^ n + 2 ^ n := Nat.add_lt_add_left p.isLt _
      _ = (i % Q + 1) * 2 ^ n := (Nat.succ_mul _ _).symm
      _ ≤ Q * 2 ^ n := Nat.mul_le_mul_right _ (Nat.mod_lt i hQ)
      _ = 2 ^ (F - n) := by rw [hF, Nat.mul_comm]
  have hchannel := h v (Fin.ofNat (2 ^ n) (i / Q)) (i % Q * 2 ^ n + p) htime
  rw [hF, Fin.val_ofNat, Nat.mod_eq_of_lt hdiv] at hchannel
  rw [hchannel]
  congr 1
  calc i / Q * (2 ^ n * Q) + (i % Q * 2 ^ n + p)
    _ = (Q * (i / Q) + i % Q) * 2 ^ n + p := by ring
    _ = i * 2 ^ n + p := by rw [Nat.div_add_mod]

theorem unscrambles_of_le {F n : Nat} (h : 2 * n ≤ F) : Unscrambles F n := by
  have hperm := mapMat_perm h
  refine ⟨hperm, fun α => ?_⟩
  obtain ⟨c, hc, hreorders⟩ := reorderInit_reorders (Fin (2 ^ n) → α) hperm
  refine ⟨c, hc, fun s regs x ch first input hx hinput v i t p hi ht htn => ?_⟩
  have hlen : (mapMat F n).length = 2 ^ (F - n) := by rw [hperm.length_eq, List.length_range]
  have hi' : i < (mapMat F n).length := by rwa [hlen]
  rw [← hlen] at htn
  have hout := congrFun (hreorders s hinput v ⟨i, hi'⟩ t ht htn) p
  have hmap : (tableMap (mapMat F n) (lt_length_of_perm hperm) ⟨i, hi'⟩ : Nat) =
      blockTime (2 ^ n) (2 ^ (F - 2 * n)) i :=
    mapMat_getElem h hi'
  rw [frame_eq_mul h] at hi
  rw [hout, hmap, hlen, frame_eq_mul h, squareTransposer_blockTime regs x hi p]
  exact hx.channel (frame_eq_mul h) v hi p

theorem not_unscrambles_of_lt {F n : Nat} (h : F < 2 * n) : ¬Unscrambles F n := by
  rintro ⟨hperm, -⟩
  rw [mapMat_of_lt h] at hperm
  have hlen := hperm.length_eq
  rw [List.length_range, List.length_nil] at hlen
  exact absurd hlen (Nat.two_pow_pos (F - n)).ne

/--
**Channels leave in natural order across the ports** exactly if a frame has at least a block on each
port; the parameter check does not ask for that.
-/
theorem unscrambles_iff {F n : Nat} (_haccepts : unscramblerAccepts F n) :
    Unscrambles F n ↔ 2 * n ≤ F := by
  refine ⟨fun h => ?_, unscrambles_of_le⟩
  by_contra hlt
  exact not_unscrambles_of_lt (Nat.lt_of_not_le hlt) h

/-- A spectrum of 32 channels on four ports. -/
theorem unscrambles_fourPorts : Unscrambles 5 2 := (unscrambles_iff (by decide)).mpr (by decide)

/-- 128 channels on sixteen ports are accepted, with half a block on each. -/
theorem not_unscrambles_sixteenPorts : unscramblerAccepts 7 4 ∧ ¬Unscrambles 7 4 :=
  ⟨by decide, not_unscrambles_of_lt (by decide)⟩

end MlibDevel.CasperLibrary
