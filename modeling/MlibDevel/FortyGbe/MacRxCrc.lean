import MlibDevel.FortyGbe.MacLanes
import MlibDevel.FortyGbe.MacRx

/-!
# The check of a received frame (`CRC/ska_mac_rx_crc_multi.vhd`)

While the words are whole the register takes one in each cycle.  The last word is kept, and its
bytes are taken by eight in four cycles, whatever comes in meanwhile (`CrcRun.frame_crc`).
-/

namespace MlibDevel.FortyGbe

open Lib

theorem maskOf_of_le {n : Nat} (h : 32 ≤ n) : maskOf n = maskOf 32 := by
  funext i
  simp [maskOf]
  omega

theorem maskOf_ne {n : Nat} (h : n < 32) : maskOf n ≠ maskOf 32 := fun heq => by
  have hlast := congrFun heq ⟨n, h⟩
  simp [maskOf, h] at hlast

theorem maskOf_ofNat (n i : Nat) (h : i < 32) : maskOf n (Fin.ofNat 32 i) = decide (i < n) := by
  simp [maskOf, Nat.mod_eq_of_lt h]

namespace RxCrc

/-! ## The bytes of the last word -/

/-- What a module is given in part `p` of the last word -/
def TailOf (s : RxCrc) (x : BitVec 256) (d : Fin 32 → BitVec 8) (p : Nat) : Prop :=
  ∀ k, 0 < k → k ≤ 8 →
    (bitsOf (s.tailIn x (8 * k))).reverse = bitsOfBytes (((bytesOf d).drop (8 * p)).take k)

theorem tailCrc_none (s : RxCrc) (x : BitVec 256) {n first : Nat} (h : n ≤ first)
    (hfirst : first + 7 < 32) (none : BitVec 32) : s.tailCrc x (maskOf n) first none = none := by
  have hval : ∀ j ≤ 7, maskOf n (Fin.ofNat 32 (first + j)) = false := by
    intro j hj
    rw [maskOf_ofNat n _ (by omega)]
    exact decide_eq_false (by omega)
  rw [tailCrc, hval 7 (by omega), hval 6 (by omega), hval 5 (by omega), hval 4 (by omega), hval 3
    (by omega),
    hval 2 (by omega), hval 1 (by omega), show maskOf n (Fin.ofNat 32 first) = false from hval 0
      (by omega)]
  rfl

/-- The valid bytes among the eight of a part are taken. -/
theorem took_tailCrc {s : RxCrc} {x : BitVec 256} {d : Fin 32 → BitVec 8} {p n : Nat}
    (hx : s.TailOf x d p) (hp : p < 4) (hn : 8 * p < n) {before : List (BitVec 8)}
    (h : Took s.crcInTail before) (none : BitVec 32) :
    Took (s.tailCrc x (maskOf n) (8 * p) none)
      (before ++ ((bytesOf d).drop (8 * p)).take (min 8 (n - 8 * p))) := by
  have hval : ∀ j ≤ 7, maskOf n (Fin.ofNat 32 (8 * p + j)) = decide (8 * p + j < n) :=
    fun j hj => maskOf_ofNat n _ (by omega)
  have hval0 : maskOf n (Fin.ofNat 32 (8 * p)) = decide (8 * p < n) := hval 0 (by omega)
  rw [tailCrc, hval 7 (by omega), hval 6 (by omega), hval 5 (by omega), hval 4 (by omega), hval 3
    (by omega),
    hval 2 (by omega), hval 1 (by omega), hval0]
  simp only [decide_eq_true_eq]
  split_ifs
  · rw [show min 8 (n - 8 * p) = 8 by omega]
    exact h.more crc64Rows_eq (hx 8 (by omega) (by omega))
  · rw [show min 8 (n - 8 * p) = 7 by omega]
    exact h.more crc56Rows_eq (hx 7 (by omega) (by omega))
  · rw [show min 8 (n - 8 * p) = 6 by omega]
    exact h.more crc48Rows_eq (hx 6 (by omega) (by omega))
  · rw [show min 8 (n - 8 * p) = 5 by omega]
    exact h.more crc40Rows_eq (hx 5 (by omega) (by omega))
  · rw [show min 8 (n - 8 * p) = 4 by omega]
    exact h.more crc32Rows_eq (hx 4 (by omega) (by omega))
  · rw [show min 8 (n - 8 * p) = 3 by omega]
    exact h.more crc24Rows_eq (hx 3 (by omega) (by omega))
  · rw [show min 8 (n - 8 * p) = 2 by omega]
    exact h.more crc16Rows_eq (hx 2 (by omega) (by omega))
  · rw [show min 8 (n - 8 * p) = 1 by omega]
    exact h.more crc8Rows_eq (hx 1 (by omega) (by omega))

/-- A part of the last word: the register of the part before it has taken the bytes before it, if
there are more, and else what is handed on has taken them all. -/
theorem took_part {s : RxCrc} {x : BitVec 256} {d : Fin 32 → BitVec 8} {p n : Nat}
    (hx : s.TailOf x d p) (hp : p < 4) {before : List (BitVec 8)} {none : BitVec 32}
    (hin : 8 * p ≤ n → Took s.crcInTail (before ++ (bytesOf d).take (8 * p)))
    (hnone : Took none (before ++ (bytesOf d).take (min n (8 * p)))) :
    Took (s.tailCrc x (maskOf n) (8 * p) none) (before ++ (bytesOf d).take (min n (8 * p + 8)))
      ∧ (8 * (p + 1) ≤ n → Took (s.crcOutInt64 x) (before ++ (bytesOf d).take (8 * (p + 1)))) := by
  have hjoin : ∀ k, (before ++ (bytesOf d).take (8 * p)) ++ ((bytesOf d).drop (8 * p)).take k
      = before ++ (bytesOf d).take (8 * p + k) := by
    intro k
    rw [List.append_assoc, ← List.take_add]
  constructor
  · by_cases hn : n ≤ 8 * p
    · rw [tailCrc_none s x hn (by omega), show min n (8 * p + 8) = min n (8 * p) by omega]
      exact hnone
    · have htook := took_tailCrc hx hp (show 8 * p < n by omega) (hin (by omega)) none
      rw [hjoin, show 8 * p + min 8 (n - 8 * p) = min n (8 * p + 8) by omega] at htook
      exact htook
  · intro hn
    have htook := (hin (by omega)).more crc64Rows_eq (hx 8 (by omega) (by omega))
    rw [hjoin] at htook
    exact htook

/-! ## The state machine -/

theorem finalCrc_edge {s : RxCrc} (h : s.currentCrcState ≠ .trailPart3) (crcReset : Bool)
    (crcInit : BitVec 32) (dataIn : Fin 32 → BitVec 8) (dataInVal : Mask) :
    (s.edge false crcReset crcInit dataIn dataInVal).finalCrc = s.finalCrc := by
  show (s.nextCrcState crcReset (dataInBitSwapped dataIn) dataInVal).finalCrc = _
  rw [nextCrcState]
  cases hstate : s.currentCrcState with
  | idle => dsimp only; split_ifs <;> rfl
  | full => dsimp only; split_ifs <;> rfl
  | trailPart1 => rfl
  | trailPart2 => rfl
  | trailPart3 => exact absurd hstate h

/-- A word is taken whatever the state is. -/
theorem took_whole (s : RxCrc) (crcReset : Bool) {before : List (BitVec 8)}
    (h : Took (if crcReset then BitVec.allOnes 32 else s.crcOutInt256Reg) before)
    (dataIn : Fin 32 → BitVec 8) (dataInVal : Mask) :
    Took (s.edge false crcReset (BitVec.allOnes 32) dataIn dataInVal).crcOutInt256Reg
      (before ++ bytesOf dataIn) :=
  h.more crc256Rows_eq (bitsOf_dataInBitSwapped_all dataIn)

/-- The last word is kept, and its parts before `p` are taken: all bytes up to there by `done`, and
those of whole parts by `tail`. -/
structure Parts (s : RxCrc) (before : List (BitVec 8)) (d : Fin 32 → BitVec 8) (n p : Nat)
    (done tail : BitVec 32) :
    Prop where
  last : s.lastDataInBitSwapped = dataInBitSwapped d
  val : s.lastDataInVal = maskOf n
  done : Took done (before ++ (bytesOf d).take (min n (8 * p)))
  tail : 8 * p ≤ n → Took tail (before ++ (bytesOf d).take (8 * p))

section Edges

variable {s : RxCrc} {before : List (BitVec 8)} {d : Fin 32 → BitVec 8} {n : Nat} (crcReset : Bool)
  (crcInit : BitVec 32) (dataIn : Fin 32 → BitVec 8) (dataInVal : Mask)

/-- The register of the next part, if there is one -/
theorem took_ite {p : Nat} {x y : BitVec 32} (hp : p < 4)
    (h : 8 * (p + 1) ≤ n → Took x (before ++ (bytesOf d).take (8 * (p + 1))))
      (hn : 8 * (p + 1) ≤ n) :
    Took (if maskOf n (Fin.ofNat 32 (8 * p + 7)) then x else y)
      (before ++ (bytesOf d).take (8 * (p + 1))) := by
  rw [maskOf_ofNat n _ (by omega), if_pos (decide_eq_true (by omega))]
  exact h hn

theorem edge_full (hstate : s.currentCrcState = .full) (htook : Took s.crcOutInt256Reg before)
    (hn : n < 32) :
    (s.edge false crcReset crcInit d (maskOf n)).currentCrcState = .trailPart1
      ∧ Parts (s.edge false crcReset crcInit d (maskOf n)) before d n 1
        (s.edge false crcReset crcInit d (maskOf n)).trailPart1Crc
        (s.edge false crcReset crcInit d (maskOf n)).crcInTailPart1 := by
  have hx : s.TailOf (dataInBitSwapped d) d 0 := by
    intro k _ _
    rw [tailIn, hstate]
    exact bitsOf_dataInBitSwapped d rfl (by omega)
  have hin : s.crcInTail = s.crcOutInt256Reg := by rw [crcInTail, hstate]
  have hbefore : Took s.crcOutInt256Reg (before ++ (bytesOf d).take 0) := by
    rwa [List.take_zero, List.append_nil]
  have hdone : Took s.crcOutInt256Reg (before ++ (bytesOf d).take (min n (8 * 0))) := by
    rwa [Nat.mul_zero, Nat.min_zero]
  have hpart := took_part hx (by omega) (fun _ => hin ▸ hbefore) hdone
  rw [edge, nextCrcState, hstate]
  dsimp only
  rw [if_pos (maskOf_ne hn)]
  exact ⟨rfl, rfl, rfl, hpart.1, took_ite (p := 0) (by omega) hpart.2⟩

theorem edge_part1 (hstate : s.currentCrcState = .trailPart1)
    (h : s.Parts before d n 1 s.trailPart1Crc s.crcInTailPart1) :
    (s.edge false crcReset crcInit dataIn dataInVal).currentCrcState = .trailPart2
      ∧ Parts (s.edge false crcReset crcInit dataIn dataInVal) before d n 2
        (s.edge false crcReset crcInit dataIn dataInVal).trailPart2Crc
        (s.edge false crcReset crcInit dataIn dataInVal).crcInTailPart2 := by
  have hx : s.TailOf (dataInBitSwapped dataIn) d 1 := by
    intro k _ _
    rw [tailIn, hstate, h.last]
    exact bitsOf_dataInBitSwapped d rfl (by omega)
  have hin : s.crcInTail = s.crcInTailPart1 := by rw [crcInTail, hstate]
  have hpart := took_part hx (by omega) (fun hn => hin ▸ h.tail hn) h.done
  rw [edge, nextCrcState, hstate]
  dsimp only
  rw [h.val]
  exact ⟨rfl, h.last, rfl, hpart.1, took_ite (p := 1) (by omega) hpart.2⟩

theorem edge_part2 (hstate : s.currentCrcState = .trailPart2)
    (h : s.Parts before d n 2 s.trailPart2Crc s.crcInTailPart2) :
    (s.edge false crcReset crcInit dataIn dataInVal).currentCrcState = .trailPart3
      ∧ Parts (s.edge false crcReset crcInit dataIn dataInVal) before d n 3
        (s.edge false crcReset crcInit dataIn dataInVal).trailPart3Crc
        (s.edge false crcReset crcInit dataIn dataInVal).crcInTailPart3 := by
  have hx : s.TailOf (dataInBitSwapped dataIn) d 2 := by
    intro k _ _
    rw [tailIn, hstate, h.last]
    exact bitsOf_dataInBitSwapped d rfl (by omega)
  have hin : s.crcInTail = s.crcInTailPart2 := by rw [crcInTail, hstate]
  have hpart := took_part hx (by omega) (fun hn => hin ▸ h.tail hn) h.done
  rw [edge, nextCrcState, hstate]
  dsimp only
  rw [h.val]
  exact ⟨rfl, h.last, rfl, hpart.1, took_ite (p := 2) (by omega) hpart.2⟩

theorem edge_part3 (hstate : s.currentCrcState = .trailPart3) (hn : n < 32)
    (h : s.Parts before d n 3 s.trailPart3Crc s.crcInTailPart3) :
    (s.edge false crcReset crcInit dataIn dataInVal).currentCrcState
        = (if dataInVal = maskOf 32 then .full else .idle)
      ∧ Took (s.edge false crcReset crcInit dataIn dataInVal).finalCrc
        (before ++ (bytesOf d).take n) := by
  have hx : s.TailOf (dataInBitSwapped dataIn) d 3 := by
    intro k _ _
    rw [tailIn, hstate, h.last]
    exact bitsOf_dataInBitSwapped d rfl (by omega)
  have hin : s.crcInTail = s.crcInTailPart3 := by rw [crcInTail, hstate]
  have hpart := took_part hx (by omega) (fun hn => hin ▸ h.tail hn) h.done
  rw [edge, nextCrcState, hstate]
  dsimp only
  rw [h.val]
  rw [show min n (8 * 3 + 8) = n by omega] at hpart
  exact ⟨rfl, hpart.1⟩

end Edges

end RxCrc

/-! ## A whole frame -/

/-- A run of the module -/
structure CrcRun (C : Nat → RxCrc) (reset : Nat → Bool) (d : Nat → Fin 32 → BitVec 8)
    (val : Nat → Mask) : Prop where
  step : ∀ c, C (c + 1) = (C c).edge false (reset c) (BitVec.allOnes 32) (d c) (val c)

namespace CrcRun

variable {C : Nat → RxCrc} {reset : Nat → Bool} {d : Nat → Fin 32 → BitVec 8} {val : Nat → Mask}

/-- **The last word of a frame**: its bytes are taken in four cycles, and then the check is
there. -/
theorem tail (h : CrcRun C reset d val) {e n : Nat} {before : List (BitVec 8)}
    (hstate : (C e).currentCrcState = .full) (htook : Took (C e).crcOutInt256Reg before)
    (hval : val e = maskOf n) (hn : n < 32) :
    (C (e + 1)).currentCrcState = .trailPart1 ∧ (C (e + 2)).currentCrcState = .trailPart2
      ∧ (C (e + 3)).currentCrcState = .trailPart3
      ∧ (C (e + 4)).currentCrcState = (if val (e + 3) = maskOf 32 then .full else .idle)
      ∧ Took (C (e + 4)).finalCrc (before ++ (bytesOf (d e)).take n) := by
  obtain ⟨hstate1, hparts1⟩ := RxCrc.edge_full (reset e) (BitVec.allOnes 32) hstate htook
    (d := d e) hn
  rw [← hval, ← h.step e] at hstate1 hparts1
  obtain ⟨hstate2, hparts2⟩ := RxCrc.edge_part1 (reset (e + 1)) (BitVec.allOnes 32) (d (e + 1))
    (val (e + 1)) hstate1
    hparts1
  rw [← h.step] at hstate2 hparts2
  obtain ⟨hstate3, hparts3⟩ := RxCrc.edge_part2 (reset (e + 2)) (BitVec.allOnes 32) (d (e + 2))
    (val (e + 2)) hstate2
    hparts2
  rw [← h.step] at hstate3 hparts3
  obtain ⟨hstate4, hfinal⟩ := RxCrc.edge_part3 (reset (e + 3)) (BitVec.allOnes 32) (d (e + 3))
    (val (e + 3)) hstate3 hn
    hparts3
  rw [← h.step] at hstate4 hfinal
  exact ⟨hstate1, hstate2, hstate3, hstate4, hfinal⟩

/-- The whole words of a frame -/
theorem whole (h : CrcRun C reset d val) {u : Nat}
    (hready : (C u).currentCrcState = .idle ∨ (C u).currentCrcState = .trailPart3)
    (hreset : reset u = true) :
    ∀ q, (∀ j, 1 ≤ j → j ≤ q → reset (u + j) = false) → (∀ j ≤ q, val (u + j) = maskOf 32) →
      (C (u + q + 1)).currentCrcState = .full
        ∧ Took (C (u + q + 1)).crcOutInt256Reg
          ((List.range (q + 1)).flatMap fun j => bytesOf (d (u + j))) := by
  intro q
  induction q with
  | zero =>
    intro _ hval
    have hfull : val u = maskOf 32 := hval 0 (Nat.le_refl 0)
    constructor
    · rw [Nat.add_zero, h.step]
      show ((C u).nextCrcState _ _ _).currentCrcState = _
      rw [RxCrc.nextCrcState]
      rcases hready with hready | hready
      · rw [hready, hreset, hfull]
        rfl
      · rw [hready, hfull]
        rfl
    · have htook := RxCrc.took_whole (C u) (reset u) (by rw [hreset]; exact took_nil) (d u) (val u)
      rw [← h.step] at htook
      simpa using htook
  | succ q ih =>
    intro hnot hval
    obtain ⟨hstate, htook⟩ := ih (fun j hj hjq => hnot j hj (by omega)) fun j hj => hval j
      (by omega)
    have hfull : val (u + q + 1) = maskOf 32 := hval (q + 1) (Nat.le_refl _)
    have hreset' : reset (u + q + 1) = false := hnot (q + 1) (by omega) (Nat.le_refl _)
    constructor
    · rw [show u + (q + 1) + 1 = u + q + 1 + 1 by omega, h.step]
      show ((C (u + q + 1)).nextCrcState _ _ _).currentCrcState = _
      rw [RxCrc.nextCrcState, hstate, hfull]
      exact hstate
    · have hmore := RxCrc.took_whole (C (u + q + 1)) (reset (u + q + 1))
        (by rw [hreset']; exact htook) (d (u + q + 1)) (val (u + q + 1))
      rw [← h.step] at hmore
      rw [List.range_succ, List.flatMap_append, List.flatMap_singleton]
      exact hmore

/-- **A frame**: after the words that are whole, and four cycles, the check is that of all its
bytes. -/
theorem frame_crc (h : CrcRun C reset d val) {u q n : Nat} (hq : 1 ≤ q)
    (hready : (C u).currentCrcState = .idle ∨ (C u).currentCrcState = .trailPart3)
    (hreset : reset u = true) (hnot : ∀ j, 1 ≤ j → j < q → reset (u + j) = false)
    (hwhole : ∀ j < q, val (u + j) = maskOf 32) (hval : val (u + q) = maskOf n) (hn : n < 32) :
    (C (u + q + 1)).currentCrcState = .trailPart1 ∧ (C (u + q + 2)).currentCrcState = .trailPart2
      ∧ (C (u + q + 3)).currentCrcState = .trailPart3
      ∧ (C (u + q + 4)).currentCrcState = (if val (u + q + 3) = maskOf 32 then .full else .idle)
      ∧ Took (C (u + q + 4)).finalCrc (((List.range q).flatMap fun j => bytesOf (d (u + j)))
        ++ (bytesOf (d (u + q))).take n) := by
  obtain ⟨q, rfl⟩ := Nat.exists_eq_add_of_le' hq
  obtain ⟨hstate, htook⟩ := h.whole hready hreset q
    (fun j hj hjq => hnot j hj (by omega)) fun j hj => hwhole j (by omega)
  exact h.tail hstate htook hval hn

end CrcRun

end MlibDevel.FortyGbe
