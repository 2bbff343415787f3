import Mathlib.Data.Fin.VecNotation
import MlibDevel.Lib.Cycles
import MlibDevel.Lib.DelayLine
import MlibDevel.FortyGbe.Pkg

/-!
# Taking the skew out of the lanes (`IEEE802_3_XL_PCS_LANE_DESKEW.vhd`)

Lane 0 is delayed by 33 cycles, the others by what a counter of six bits has counted from their
marker to that of lane 0.  Skews of -32 to 31 blocks are taken out and reported as aligned; as the
markers come again after 16384 blocks, so do the skews (`deskews`).
-/

namespace MlibDevel.FortyGbe

open Lib

/-! ## The registers -/

/-- The inputs. -/
structure DeskewIn where
  amStatus : Bool
  pcsBlocks : Fin 4 → Block
  amValid : Fin 4 → Bool

/-- The registers of `IEEE802_3_XL_PCS_LANE_DESKEW`.  The index `0` of lane 0 is the input itself;
the other lanes are counted from `0`. -/
structure LaneDeskew where
  lane0Sr32 : Fin 33 → Block
  lane0AmValidSr32 : Fin 33 → Bool
  laneDsrl : Fin 3 → Fin 64 → Block
  laneAmValidDsrl : Fin 3 → Fin 64 → Bool
  lane : Fin 3 → Block
  laneAmValid : Fin 3 → Bool
  laneCount : Fin 3 → BitVec 6
  counterEn : Fin 3 → Bool
  lanePtr : Fin 3 → BitVec 6
  lanesAligned : Bool
  alignmentValid : Bool
  alignStatusO : Bool

namespace LaneDeskew

/-- `LANE0_AM_VALID_SR32(32)` -/
def am32 (s : LaneDeskew) : Bool := s.lane0AmValidSr32 31

/-- `LANE0_AM_VALID_SR32(33)`, which is `AM_VALID_O` -/
def am33 (s : LaneDeskew) : Bool := s.lane0AmValidSr32 32

/-- A rising edge of `CLK_I`.  `ALIGN_STATUS_O` is low as soon as `AM_STATUS_I` is. -/
def edge (s : LaneDeskew) (i : DeskewIn) : LaneDeskew where
  lane0Sr32 := shiftInto (i.pcsBlocks 0) s.lane0Sr32
  lane0AmValidSr32 := shiftInto (i.amValid 0) s.lane0AmValidSr32
  laneDsrl := fun j => shiftInto (i.pcsBlocks j.succ) (s.laneDsrl j)
  laneAmValidDsrl := fun j => shiftInto (i.amValid j.succ) (s.laneAmValidDsrl j)
  lane := fun j => s.laneDsrl j (s.lanePtr j).toFin
  laneAmValid := fun j => s.laneAmValidDsrl j (s.lanePtr j).toFin
  lanePtr := fun j => if s.am32 then s.laneCount j else s.lanePtr j
  counterEn := fun j => if s.am32 then false else if i.amValid j.succ then true else s.counterEn j
  laneCount := fun j => if s.counterEn j then s.laneCount j + 1 else 0
  lanesAligned :=
    if s.am33 then s.laneAmValid 0 && s.laneAmValid 1 && s.laneAmValid 2 else s.lanesAligned
  alignmentValid := if i.amStatus then s.lanesAligned else false
  alignStatusO := if i.amStatus then s.alignmentValid else false

/-- `PCS_BLOCKs_O` -/
def pcsBlocksO (s : LaneDeskew) : Fin 4 → Block := Fin.cases (s.lane0Sr32 32) s.lane

/-- The registers at power-up, whatever those hold that are not initialised. -/
def powerUp (s : LaneDeskew) : LaneDeskew :=
  { s with
    lane0AmValidSr32 := fun _ => false
    counterEn := fun _ => false
    lanePtr := fun _ => 0
    lanesAligned := false
    alignmentValid := false
    alignStatusO := false }

end LaneDeskew

/-! ## Skewed lanes -/

/-- Lane 0 has a marker in the cycle `a`, and each lane one in each 16384th cycle.  Those of the
lane `j + 1` come `skew j` cycles later than those of lane 0. -/
structure Skewed (input : Nat → DeskewIn) (a : Nat) (skew : Fin 3 → Int) : Prop where
  lane0 : ∀ t : Nat, (input t).amValid 0 = true ↔ ((t : Int) - a) % 16384 = 0
  lane : ∀ (j : Fin 3) (t : Nat),
    (input t).amValid j.succ = true ↔ ((t : Int) - (a + skew j)) % 16384 = 0

section Run

variable (s : LaneDeskew) (input : Nat → DeskewIn)

/-- The lanes in a cycle. -/
def deskewAt (t : Nat) : LaneDeskew := atCycle LaneDeskew.edge s.powerUp input t

theorem deskewAt_succ (t : Nat) :
    deskewAt s input (t + 1) = (deskewAt s input t).edge (input t) := rfl

/-! ### The delay lines -/

theorem lane0_delayed (u : Nat) :
    (deskewAt s input (u + 33)).lane0Sr32 32 = (input u).pcsBlocks 0 :=
  delayed (fun t => (deskewAt s input t).lane0Sr32) (fun _ => rfl) 32 u

theorem lane_delayed (j : Fin 3) (k : Fin 64) (u : Nat) :
    (deskewAt s input (u + (k.val + 1))).laneDsrl j k = (input u).pcsBlocks j.succ :=
  delayed (fun t => (deskewAt s input t).laneDsrl j) (fun _ => rfl) k u

theorem laneAmValid_delayed (j : Fin 3) (k : Fin 64) (u : Nat) :
    (deskewAt s input (u + (k.val + 1))).laneAmValidDsrl j k = (input u).amValid j.succ :=
  delayed (fun t => (deskewAt s input t).laneAmValidDsrl j) (fun _ => rfl) k u

theorem am33_eq (u : Nat) : (deskewAt s input (u + 33)).am33 = (input u).amValid 0 :=
  delayed (fun t => (deskewAt s input t).lane0AmValidSr32) (fun _ => rfl) 32 u

theorem am32_eq (u : Nat) : (deskewAt s input (u + 32)).am32 = (input u).amValid 0 :=
  delayed (fun t => (deskewAt s input t).lane0AmValidSr32) (fun _ => rfl) 31 u

variable {s input} in
/-- A delayed marker has come before. -/
theorem exists_of_am32 {t : Nat} (h : (deskewAt s input t).am32 = true) :
    ∃ u, t = u + 32 ∧ (input u).amValid 0 = true := by
  rcases Nat.lt_or_ge t 32 with hearly | hlate
  · have hnone : (deskewAt s input t).am32 = false :=
      not_yet_delayed (fun t => (deskewAt s input t).lane0AmValidSr32) (fun _ => rfl)
        (fun _ => rfl) t 31 (Nat.le_of_lt_succ hearly)
    rw [hnone] at h
    cases h
  · obtain ⟨u, rfl⟩ := Nat.exists_eq_add_of_le' hlate
    exact ⟨u, rfl, (am32_eq s input u).symm.trans h⟩

variable {s input} in
/-- A delayed marker has come before. -/
theorem exists_of_am33 {t : Nat} (h : (deskewAt s input t).am33 = true) :
    ∃ u, t = u + 33 ∧ (input u).amValid 0 = true := by
  rcases Nat.lt_or_ge t 33 with hearly | hlate
  · have hnone : (deskewAt s input t).am33 = false :=
      not_yet_delayed (fun t => (deskewAt s input t).lane0AmValidSr32) (fun _ => rfl)
        (fun _ => rfl) t 32 (Nat.le_of_lt_succ hearly)
    rw [hnone] at h
    cases h
  · obtain ⟨u, rfl⟩ := Nat.exists_eq_add_of_le' hlate
    exact ⟨u, rfl, (am33_eq s input u).symm.trans h⟩

/-! ### The taps -/

theorem lanePtr_succ (j : Fin 3) (t : Nat) : (deskewAt s input (t + 1)).lanePtr j
    = if (deskewAt s input t).am32 then (deskewAt s input t).laneCount j
      else (deskewAt s input t).lanePtr j := rfl

theorem laneCount_succ (j : Fin 3) (t : Nat) : (deskewAt s input (t + 1)).laneCount j
    = if (deskewAt s input t).counterEn j then (deskewAt s input t).laneCount j + 1 else 0 := rfl

theorem counterEn_succ (j : Fin 3) (t : Nat) : (deskewAt s input (t + 1)).counterEn j
    = if (deskewAt s input t).am32 then false
      else if (input t).amValid j.succ then true else (deskewAt s input t).counterEn j := rfl

/-- The tap is at zero until lane 0 has had a marker. -/
theorem lanePtr_zero_or (j : Fin 3) : ∀ t : Nat, (deskewAt s input t).lanePtr j = 0 ∨
    ∃ u, u + 33 ≤ t ∧ (input u).amValid 0 = true
  | 0 => Or.inl rfl
  | t + 1 => by
    rw [lanePtr_succ]
    cases hmark : (deskewAt s input t).am32 with
    | true =>
      obtain ⟨u, rfl, hu⟩ := exists_of_am32 hmark
      exact Or.inr ⟨u, Nat.le_refl _, hu⟩
    | false =>
      rcases lanePtr_zero_or j t with hzero | ⟨u, hle, hu⟩
      · exact Or.inl hzero
      · exact Or.inr ⟨u, by omega, hu⟩

section Skew

variable {s input} {a : Nat} {skew : Fin 3 → Int} (h : Skewed input a skew)

include h

/-- A running counter says how long ago a marker of its lane has come, modulo 64. -/
theorem Skewed.laneCount (j : Fin 3) (t : Nat) (hen : (deskewAt s input t).counterEn j = true) :
    (((deskewAt s input t).laneCount j).toNat - ((t : Int) - 1 - (a + skew j))) % 64 = 0 := by
  induction t with
  | zero => cases hen
  | succ t ih =>
    rw [laneCount_succ]
    cases hbefore : (deskewAt s input t).counterEn j with
    | true =>
      have hcount := ih hbefore
      rw [if_pos rfl, BitVec.toNat_add]
      show (((((deskewAt s input t).laneCount j).toNat + 1) % 64 : Nat) - _ : Int) % 64 = 0
      omega
    | false =>
      rw [counterEn_succ, hbefore] at hen
      have hmark : (input t).amValid j.succ = true := by
        cases hm : (input t).amValid j.succ with
        | true => rfl
        | false =>
          rw [hm] at hen
          split at hen <;> cases hen
      have hnow := (h.lane j t).mp hmark
      rw [if_neg Bool.false_ne_true]
      show ((0 : Nat) - _ : Int) % 64 = 0
      omega

/-- From the marker of a lane to that of lane 0, as it comes 32 cycles later, the counter runs. -/
theorem Skewed.counterEn {j : Fin 3} (hlo : -32 ≤ skew j) (hhi : skew j ≤ 31) {u m : Nat}
    (hu : (input u).amValid 0 = true) (hm : (m : Int) = u + skew j) :
    ∀ k : Nat, m + 1 + k ≤ u + 32 →
      (deskewAt s input (m + 1 + k)).counterEn j = true := by
  have hphase := (h.lane0 u).mp hu
  have hquiet : ∀ t, m ≤ t → t < u + 32 → (deskewAt s input t).am32 = false := by
    intro t hle hlt
    rw [← Bool.not_eq_true]
    intro hmark
    obtain ⟨u', rfl, hu'⟩ := exists_of_am32 hmark
    have hphase' := (h.lane0 u').mp hu'
    omega
  intro k hk
  induction k with
  | zero =>
    have hmark : (input m).amValid j.succ = true := (h.lane j m).mpr (by omega)
    rw [Nat.add_zero, counterEn_succ, hquiet m (Nat.le_refl m) (by omega),
      if_neg Bool.false_ne_true, hmark, if_pos rfl]
  | succ k ih =>
    have hrunning := ih (by omega)
    show (deskewAt s input (m + 1 + k + 1)).counterEn j = true
    rw [counterEn_succ, hquiet (m + 1 + k) (by omega) (by omega),
      if_neg Bool.false_ne_true, hrunning]
    split <;> rfl

/-- What the tap is set to. -/
theorem Skewed.lanePtr_of_marker {j : Fin 3} (hlo : -32 ≤ skew j) (hhi : skew j ≤ 31) {u : Nat}
    (hu : (input u).amValid 0 = true) (hstart : 0 ≤ u + skew j) :
    (((deskewAt s input (u + 33)).lanePtr j).toNat : Int) = 31 - skew j := by
  obtain ⟨m, hm⟩ := Int.eq_ofNat_of_zero_le hstart
  have hphase := (h.lane0 u).mp hu
  have hrunning := h.counterEn (s := s) hlo hhi hu hm.symm (u + 31 - m) (by omega)
  rw [show m + 1 + (u + 31 - m) = u + 32 by omega] at hrunning
  have hcount := h.laneCount j (u + 32) hrunning
  have hlt := ((deskewAt s input (u + 32)).laneCount j).isLt
  show (((deskewAt s input (u + 32 + 1)).lanePtr j).toNat : Int) = _
  rw [lanePtr_succ, am32_eq, hu, if_pos rfl]
  omega

/-- From the first marker on the tap stays. -/
theorem Skewed.lanePtr {j : Fin 3} (hlo : -32 ≤ skew j) (hhi : skew j ≤ 31)
    (hstart : 0 ≤ a + skew j) :
    ∀ t, (((deskewAt s input (a + 33 + t)).lanePtr j).toNat : Int) = 31 - skew j := by
  intro t
  induction t with
  | zero => exact h.lanePtr_of_marker hlo hhi ((h.lane0 a).mpr (by omega)) hstart
  | succ t ih =>
    cases hmark : (deskewAt s input (a + 33 + t)).am32 with
    | true =>
      obtain ⟨u, hu, hmarked⟩ := exists_of_am32 hmark
      have hset := h.lanePtr_of_marker (s := s) hlo hhi hmarked (by omega)
      rwa [show a + 33 + (t + 1) = u + 33 by omega]
    | false =>
      show (((deskewAt s input (a + 33 + t + 1)).lanePtr j).toNat : Int) = _
      rw [lanePtr_succ, hmark, if_neg Bool.false_ne_true]
      exact ih

/-! ### The blocks of one index -/

/-- A lane is tapped where the block of the same index is. -/
theorem Skewed.tap {j : Fin 3} (hlo : -32 ≤ skew j) (hhi : skew j ≤ 31) (hstart : 0 ≤ a + skew j)
    {n : Nat} (hn : a < n) : ∃ v : Nat, (v : Int) = n + skew j ∧
      (deskewAt s input (n + 33)).lane j = (input v).pcsBlocks j.succ ∧
      (deskewAt s input (n + 33)).laneAmValid j = (input v).amValid j.succ := by
  obtain ⟨v, hv⟩ := Int.eq_ofNat_of_zero_le (show 0 ≤ n + skew j by omega)
  obtain ⟨t, ht⟩ := Nat.exists_eq_add_of_le (show a + 33 ≤ n + 32 by omega)
  have hptr := h.lanePtr (s := s) hlo hhi hstart t
  rw [← ht] at hptr
  have htap : v + (((deskewAt s input (n + 32)).lanePtr j).toFin.val + 1) = n + 32 := by
    show v + (((deskewAt s input (n + 32)).lanePtr j).toNat + 1) = n + 32
    omega
  have hblock := lane_delayed s input j ((deskewAt s input (n + 32)).lanePtr j).toFin v
  have hmark := laneAmValid_delayed s input j ((deskewAt s input (n + 32)).lanePtr j).toFin v
  rw [htap] at hblock hmark
  exact ⟨v, hv.symm, hblock, hmark⟩

/-- From the second marker on the lanes are known to be aligned. -/
theorem Skewed.lanesAligned (hrange : ∀ j, -32 ≤ skew j ∧ skew j ≤ 31)
    (hstart : ∀ j, 0 ≤ a + skew j) (t : Nat) :
    (deskewAt s input (a + 16384 + 34 + t)).lanesAligned = true := by
  have hset : ∀ u, a < u → (input u).amValid 0 = true →
      (deskewAt s input (u + 34)).lanesAligned = true := by
    intro u hu hmark
    have hphase := (h.lane0 u).mp hmark
    have htapped : ∀ j, (deskewAt s input (u + 33)).laneAmValid j = true := by
      intro j
      obtain ⟨v, hv, -, hvalid⟩ := h.tap (s := s) (hrange j).1 (hrange j).2 (hstart j) hu
      rw [hvalid]
      exact (h.lane j v).mpr (by omega)
    show (deskewAt s input (u + 33 + 1)).lanesAligned = true
    rw [deskewAt_succ]
    show (if (deskewAt s input (u + 33)).am33 then _ else _) = true
    rw [am33_eq, hmark, if_pos rfl, htapped, htapped, htapped]
    rfl
  induction t with
  | zero => exact hset (a + 16384) (by omega) ((h.lane0 _).mpr (by omega))
  | succ t ih =>
    cases hmark : (deskewAt s input (a + 16384 + 34 + t)).am33 with
    | true =>
      obtain ⟨u, hu, hmarked⟩ := exists_of_am33 hmark
      have haligned := hset u (by omega) hmarked
      rwa [show a + 16384 + 34 + (t + 1) = u + 34 by omega]
    | false =>
      show (deskewAt s input (a + 16384 + 34 + t + 1)).lanesAligned = true
      rw [deskewAt_succ]
      show (if (deskewAt s input (a + 16384 + 34 + t)).am33 then _ else _) = true
      rw [hmark, if_neg Bool.false_ne_true]
      exact ih

/-- Two cycles later they are reported. -/
theorem Skewed.alignStatusO (hrange : ∀ j, -32 ≤ skew j ∧ skew j ≤ 31)
    (hstart : ∀ j, 0 ≤ a + skew j) (hheld : ∀ t, (input t).amStatus = true) (t : Nat) :
    (deskewAt s input (a + 16384 + 36 + t)).alignStatusO = true := by
  have haligned := h.lanesAligned (s := s) hrange hstart t
  have hvalid : (deskewAt s input (a + 16384 + 34 + t + 1)).alignmentValid = true := by
    rw [deskewAt_succ]
    show (if (input _).amStatus then _ else _) = true
    rw [hheld, if_pos rfl]
    exact haligned
  rw [show a + 16384 + 36 + t = a + 16384 + 34 + t + 1 + 1 by omega, deskewAt_succ]
  show (if (input _).amStatus then _ else _) = true
  rw [hheld, if_pos rfl]
  exact hvalid

/-! ### Other skews -/

/-- The tap of a lane with another skew never has a marker when lane 0 has. -/
theorem Skewed.laneAmValid_of_outside {j : Fin 3}
    (hout : ∀ d : Int, -32 ≤ d → d ≤ 31 → (skew j - d) % 16384 ≠ 0) {u : Nat}
    (hu : (input u).amValid 0 = true) : (deskewAt s input (u + 33)).laneAmValid j = false := by
  have hphase := (h.lane0 u).mp hu
  have hlt := ((deskewAt s input (u + 32)).lanePtr j).isLt
  have hlate : ((deskewAt s input (u + 32)).lanePtr j).toNat ≤ u + 31 := by
    rcases lanePtr_zero_or s input j (u + 32) with hzero | ⟨u', hle, hu'⟩
    · rw [hzero]
      exact Nat.zero_le _
    · have hphase' := (h.lane0 u').mp hu'
      omega
  obtain ⟨v, hv⟩ := Nat.exists_eq_add_of_le hlate
  have hmark := laneAmValid_delayed s input j ((deskewAt s input (u + 32)).lanePtr j).toFin v
  have htap : v + (((deskewAt s input (u + 32)).lanePtr j).toFin.val + 1) = u + 32 := by
    show v + (((deskewAt s input (u + 32)).lanePtr j).toNat + 1) = u + 32
    omega
  rw [htap] at hmark
  show (deskewAt s input (u + 32)).laneAmValidDsrl j
    ((deskewAt s input (u + 32)).lanePtr j).toFin = false
  rw [hmark, ← Bool.not_eq_true, h.lane j v]
  have hno := hout (31 - ((deskewAt s input (u + 32)).lanePtr j).toNat) (by omega) (by omega)
  omega

theorem Skewed.lanesAligned_of_outside {j : Fin 3}
    (hout : ∀ d : Int, -32 ≤ d → d ≤ 31 → (skew j - d) % 16384 ≠ 0) (t : Nat) :
    (deskewAt s input t).lanesAligned = false := by
  induction t with
  | zero => rfl
  | succ t ih =>
    rw [deskewAt_succ]
    show (if (deskewAt s input t).am33 then (deskewAt s input t).laneAmValid 0
      && (deskewAt s input t).laneAmValid 1 && (deskewAt s input t).laneAmValid 2
      else (deskewAt s input t).lanesAligned) = false
    cases hmark : (deskewAt s input t).am33 with
    | true =>
      obtain ⟨u, rfl, hu⟩ := exists_of_am33 hmark
      have hlane := h.laneAmValid_of_outside (s := s) hout hu
      rw [if_pos rfl]
      match j, hlane with
      | 0, hlane => rw [hlane, Bool.false_and, Bool.false_and]
      | 1, hlane => rw [hlane, Bool.and_false, Bool.false_and]
      | 2, hlane => rw [hlane, Bool.and_false]
    | false =>
      rw [if_neg Bool.false_ne_true]
      exact ih

theorem Skewed.alignStatusO_of_outside {j : Fin 3}
    (hout : ∀ d : Int, -32 ≤ d → d ≤ 31 → (skew j - d) % 16384 ≠ 0) (t : Nat) :
    (deskewAt s input t).alignStatusO = false := by
  have hvalid : ∀ t, (deskewAt s input t).alignmentValid = false := by
    intro t
    cases t with
    | zero => rfl
    | succ t =>
      rw [deskewAt_succ]
      show (if (input t).amStatus then (deskewAt s input t).lanesAligned else false) = false
      rw [h.lanesAligned_of_outside hout t]
      exact ite_self false
  cases t with
  | zero => rfl
  | succ t =>
    rw [deskewAt_succ]
    show (if (input t).amStatus then (deskewAt s input t).alignmentValid else false) = false
    rw [hvalid t]
    exact ite_self false

end Skew

/--
**Skews of -32 to 31 blocks are taken out.**  `a` is a cycle of a marker on lane 0 to which all the
other lanes have their marker after the start.  Behind it the blocks of one index leave together,
and from three cycles after the second such marker has left the lanes are reported as aligned, if
all skews are in the range.  If one of them, reduced by any multiple of the distance of the markers,
is not, they never are.
-/
theorem deskews {a : Nat} {skew : Fin 3 → Int} (h : Skewed input a skew)
    (hheld : ∀ t, (input t).amStatus = true) :
    ((∀ j, -32 ≤ skew j ∧ skew j ≤ 31) → (∀ j, 0 ≤ a + skew j) →
      (∀ n, a < n → (deskewAt s input (n + 33)).am33 = (input n).amValid 0 ∧
        (deskewAt s input (n + 33)).pcsBlocksO 0 = (input n).pcsBlocks 0 ∧
        ∀ j, ∃ v : Nat, (v : Int) = n + skew j ∧
          (deskewAt s input (n + 33)).pcsBlocksO j.succ = (input v).pcsBlocks j.succ) ∧
      ∀ t, a + 16384 + 36 ≤ t → (deskewAt s input t).alignStatusO = true) ∧
    ((∃ j, ∀ d : Int, -32 ≤ d → d ≤ 31 → (skew j - d) % 16384 ≠ 0) →
      ∀ t, (deskewAt s input t).alignStatusO = false) := by
  refine ⟨fun hrange hstart => ⟨?_, ?_⟩, ?_⟩
  · intro n hn
    refine ⟨am33_eq s input n, lane0_delayed s input n, ?_⟩
    intro j
    obtain ⟨v, hv, hblock, -⟩ := h.tap (s := s) (hrange j).1 (hrange j).2 (hstart j) hn
    exact ⟨v, hv, hblock⟩
  · intro t ht
    obtain ⟨t, rfl⟩ := Nat.exists_eq_add_of_le ht
    exact h.alignStatusO hrange hstart hheld t
  · rintro ⟨j, hout⟩ t
    exact h.alignStatusO_of_outside hout t

end Run

/-- All registers at zero. -/
def LaneDeskew.blank : LaneDeskew where
  lane0Sr32 := fun _ => ⟨0, 0⟩
  lane0AmValidSr32 := fun _ => false
  laneDsrl := fun _ _ => ⟨0, 0⟩
  laneAmValidDsrl := fun _ _ => false
  lane := fun _ => ⟨0, 0⟩
  laneAmValid := fun _ => false
  laneCount := fun _ => 0
  counterEn := fun _ => false
  lanePtr := fun _ => 0
  lanesAligned := false
  alignmentValid := false
  alignStatusO := false

/-- The markers of the lanes come in these cycles, and again after each 16384 cycles. -/
def markersAt (first : Fin 4 → Nat) (t : Nat) : DeskewIn :=
  ⟨true, fun _ => ⟨0b10, t⟩, fun i => t % 16384 == first i % 16384⟩

theorem markersAt_skewed (first : Fin 4 → Nat) (skew : Fin 3 → Int)
    (h : ∀ j : Fin 3, ((first 0 + skew j - first j.succ : Int)) % 16384 = 0) :
    Skewed (markersAt first) (first 0) skew := by
  constructor
  · intro t
    show (t % 16384 == first 0 % 16384) = true ↔ _
    rw [beq_iff_eq]
    omega
  · intro j t
    have hj := h j
    show (t % 16384 == first j.succ % 16384) = true ↔ _
    rw [beq_iff_eq]
    omega

/-- Lane 1 is 31 cycles later than lane 0, lane 2 is 32 cycles earlier and lane 3 is in step. -/
theorem deskews_skewed :
    (deskewAt LaneDeskew.blank (markersAt ![40, 71, 8, 40]) (40 + 16384 + 36)).alignStatusO =
      true :=
  have hskewed : Skewed (markersAt ![40, 71, 8, 40]) 40 ![31, -32, 0] :=
    markersAt_skewed ![40, 71, 8, 40] ![31, -32, 0] (by decide)
  ((deskews LaneDeskew.blank (markersAt ![40, 71, 8, 40]) hskewed fun _ => rfl).1 (by decide)
    (by decide)).2 _ (Nat.le_refl _)

/-- A lane that is later by as much as the markers are apart is reported as aligned. -/
theorem wholePeriod_reported : Skewed (markersAt ![0, 16384, 0, 0]) 0 ![16384, 0, 0] ∧
    (∀ t, (markersAt ![0, 16384, 0, 0] t).amStatus = true) ∧ 31 < (![16384, 0, 0] : Fin 3 → Int) 0 ∧
    (deskewAt LaneDeskew.blank (markersAt ![0, 16384, 0, 0]) (16384 + 36)).alignStatusO = true := by
  have hnone : Skewed (markersAt ![0, 16384, 0, 0]) 0 ![0, 0, 0] :=
    markersAt_skewed ![0, 16384, 0, 0] ![0, 0, 0] (by decide)
  refine ⟨markersAt_skewed ![0, 16384, 0, 0] ![16384, 0, 0] (by decide),
    fun _ => rfl, by decide, ?_⟩
  have haligned :=
    hnone.alignStatusO (s := LaneDeskew.blank) (by decide) (by decide) (fun _ => rfl) 0
  rwa [Nat.zero_add, Nat.add_zero] at haligned

end MlibDevel.FortyGbe
