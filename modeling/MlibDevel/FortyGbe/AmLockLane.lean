import Mathlib.Data.Nat.Init
import MlibDevel.Lib.Cycles
import MlibDevel.FortyGbe.Pkg

/-!
# Lock to the alignment markers of a lane (`IEEE802_3_XL_PCS_AM_LOCK_LANE.vhd`)

Two markers of one lane index, 16384 blocks apart, lock the lane, and from there on a marker is
expected at each 16384th block.  The bad ones are counted from the first marker on: a good one does
not clear the count (`locksLane_iff`).
-/

namespace MlibDevel.FortyGbe

open Lib

/-! ## The registers -/

/-- `state_type` -/
inductive AmLockState
  | amLockInit
  | findFirst
  | firstFound
  | countOne
  | twoGood
  | countTwo
  | goodAm
  | invalidAm
  deriving DecidableEq, Repr

/-- The inputs. -/
structure AmLockIn where
  rst : Bool
  blockLock : Bool
  pcsBlock : Block
  deriving DecidableEq, Repr

/-- The registers of `IEEE802_3_XL_PCS_AM_LOCK_LANE`. -/
structure AmLockLane where
  rxCodedD2 : Block
  rxCodedD3 : Block
  amValid : Bool
  laneMap : BitVec 4
  laneMapD2 : BitVec 4
  currentAmIndex : BitVec 2
  firstAmIndex : BitVec 2
  amCounter : BitVec 15
  amInvldCnt : BitVec 2
  state : AmLockState
  pcsBlockO : Block
  amValidO : Bool
  amLockO : Bool
  laneMapO : BitVec 4
  deriving DecidableEq, Repr

/-- `next_am` -/
def nextAm (b : Block) : BitVec 48 := b.p.extractLsb' 32 24 ++ b.p.extractLsb' 0 24

/-- The index of the marker, or none (`AM_DETECTOR_DECODER_PROC`). -/
def amIndex (b : Block) : Option (BitVec 2) :=
  if nextAm b = nextAm (amBlocks 0) then some 0
  else if nextAm b = nextAm (amBlocks 1) then some 1
  else if nextAm b = nextAm (amBlocks 2) then some 2
  else if nextAm b = nextAm (amBlocks 3) then some 3
  else none

/-- `lane_map` of `next_am(5 downto 4)` -/
def laneMapOf (b : Block) (old : BitVec 4) : BitVec 4 :=
  if b.p.extractLsb' 4 2 = (amBlocks 0).p.extractLsb' 4 2 then 0b0001
  else if b.p.extractLsb' 4 2 = (amBlocks 1).p.extractLsb' 4 2 then 0b0010
  else if b.p.extractLsb' 4 2 = (amBlocks 2).p.extractLsb' 4 2 then 0b0100
  else if b.p.extractLsb' 4 2 = (amBlocks 3).p.extractLsb' 4 2 then 0b1000
  else old

namespace AmLockLane

/-- `am_counter_done` -/
def amCounterDone (s : AmLockLane) : Bool := s.amCounter == 16383

/-- `am_invld_cnt_done` -/
def amInvldCntDone (s : AmLockLane) : Bool := s.amInvldCnt == 3

/-- `current_equal_first` -/
def currentEqualFirst (s : AmLockLane) : Bool := s.currentAmIndex == s.firstAmIndex && s.amValid

/-- `next_state` -/
def nextState (s : AmLockLane) : AmLockState :=
  match s.state with
  | .amLockInit => .findFirst
  | .findFirst => if s.amValid then .firstFound else .findFirst
  | .firstFound => .countOne
  | .countOne =>
    if s.amCounterDone then if s.currentEqualFirst then .twoGood else .findFirst else .countOne
  | .twoGood => .countTwo
  | .countTwo =>
    if s.amCounterDone then if s.currentEqualFirst then .goodAm else .invalidAm else .countTwo
  | .goodAm => .countTwo
  | .invalidAm => if s.amInvldCntDone then .findFirst else .countTwo

/-- `start_am_counter` -/
def startAmCounter (s : AmLockLane) : Bool :=
  match s.state with
  | .amLockInit | .findFirst => false
  | .firstFound | .twoGood | .goodAm => true
  | .countOne | .countTwo => !s.amCounterDone
  | .invalidAm => !s.amInvldCntDone

/-- `INVLD_COUNT_PROC` -/
def nextAmInvldCnt (s : AmLockLane) : BitVec 2 :=
  match s.state with
  | .findFirst => 0
  | .invalidAm => if s.amInvldCntDone then s.amInvldCnt else s.amInvldCnt + 1
  | _ => s.amInvldCnt

/-- `output_is_am` -/
def outputIsAm (s : AmLockLane) : Bool :=
  match s.state with
  | .firstFound | .twoGood | .goodAm | .invalidAm => true
  | _ => false

/-- `output_am_lock` -/
def outputAmLock (s : AmLockLane) : Bool :=
  match s.state with
  | .amLockInit | .findFirst | .firstFound | .countOne => false
  | .twoGood | .countTwo | .goodAm | .invalidAm => true

/-- A rising edge of `CLK_I`, for a `DEFAULT_LANE_MAP`.  Two of the outputs are low as soon as
`RST_I` is high. -/
def edge (defaultLaneMap : BitVec 4) (s : AmLockLane) (i : AmLockIn) : AmLockLane where
  rxCodedD2 := i.pcsBlock
  rxCodedD3 := s.rxCodedD2
  amValid := (amIndex i.pcsBlock).isSome
  laneMap := laneMapOf i.pcsBlock s.laneMap
  laneMapD2 := if s.amValid then s.laneMap else s.laneMapD2
  currentAmIndex := (amIndex i.pcsBlock).getD 0
  firstAmIndex := if s.state = .findFirst then s.currentAmIndex else s.firstAmIndex
  amCounter := if s.startAmCounter then s.amCounter + 1 else 0
  amInvldCnt := s.nextAmInvldCnt
  state := if i.rst || !i.blockLock then .amLockInit else s.nextState
  pcsBlockO := s.rxCodedD3
  amValidO := !i.rst && s.outputIsAm
  amLockO := !i.rst && s.outputAmLock
  laneMapO :=
    if i.rst then defaultLaneMap else if s.state = .twoGood then s.laneMapD2 else s.laneMapO

/-- The registers as the reset leaves them, whatever the others hold. -/
def reset (s : AmLockLane) : AmLockLane :=
  { s with state := .amLockInit, amValidO := false, amLockO := false }

end AmLockLane

/-! ## A run with the block lock held -/

section Run

variable (defaultLaneMap : BitVec 4) (s : AmLockLane) (b : Nat → Block)

/-- The lane in a cycle. -/
def laneAt (t : Nat) : AmLockLane :=
  atCycle (AmLockLane.edge defaultLaneMap) s.reset (fun t => ⟨false, true, b t⟩) t

/-- The lock has come with the block `u`, and has been held up to the block `v`.  A block leaves the
lane three cycles after it has come. -/
structure HeldSince (u v : Nat) : Prop where
  le : u ≤ v
  before : (laneAt defaultLaneMap s b (u + 2)).amLockO = false
  held : ∀ w, u ≤ w → w ≤ v → (laneAt defaultLaneMap s b (w + 3)).amLockO = true

/-- The marker expected as the `k`th behind the block `u` is invalid or of another lane. -/
def Missing (u k : Nat) : Prop := amIndex (b (u + 16384 * k)) ≠ amIndex (b u)

instance (u k : Nat) : Decidable (Missing b u k) := inferInstanceAs (Decidable (_ ≠ _))

/-- What is asked of the lock of a lane. -/
structure LocksLane : Prop where
  delayed : ∀ u, (laneAt defaultLaneMap s b (u + 3)).pcsBlockO = b u
  asserted : ∀ t, (laneAt defaultLaneMap s b t).amLockO = false →
    (laneAt defaultLaneMap s b (t + 1)).amLockO = true →
    ∃ u i, t = u + 16384 + 2 ∧ amIndex (b u) = some i ∧ amIndex (b (u + 16384)) = some i
  marked : ∀ u v, HeldSince defaultLaneMap s b u v →
    ((laneAt defaultLaneMap s b (v + 3)).amValidO = true ↔ ∃ k, v = u + 16384 * k)
  givenUp : ∀ u v, HeldSince defaultLaneMap s b u v →
    ((laneAt defaultLaneMap s b (v + 4)).amLockO = false ↔
      ∃ k, v = u + 16384 * (k + 4) ∧ ∀ j < 4, Missing b u (k + 1 + j))

/-! ### The registers in a run -/

theorem state_succ (t : Nat) :
    (laneAt defaultLaneMap s b (t + 1)).state = (laneAt defaultLaneMap s b t).nextState := rfl

theorem amInvldCnt_succ (t : Nat) : (laneAt defaultLaneMap s b (t + 1)).amInvldCnt
    = (laneAt defaultLaneMap s b t).nextAmInvldCnt := rfl

theorem amCounter_succ (t : Nat) : (laneAt defaultLaneMap s b (t + 1)).amCounter
    = if (laneAt defaultLaneMap s b t).startAmCounter
      then (laneAt defaultLaneMap s b t).amCounter + 1 else 0 := rfl

theorem firstAmIndex_succ (t : Nat) : (laneAt defaultLaneMap s b (t + 1)).firstAmIndex
    = if (laneAt defaultLaneMap s b t).state = .findFirst
      then (laneAt defaultLaneMap s b t).currentAmIndex
      else (laneAt defaultLaneMap s b t).firstAmIndex := rfl

theorem amValid_succ (t : Nat) :
    (laneAt defaultLaneMap s b (t + 1)).amValid = (amIndex (b t)).isSome := rfl

theorem pcsBlockO_succ (u : Nat) : (laneAt defaultLaneMap s b (u + 3)).pcsBlockO = b u := rfl

/-- The comparison with the first index is about the block that has just come. -/
theorem currentEqualFirst_succ (t : Nat) :
    (laneAt defaultLaneMap s b (t + 1)).currentEqualFirst = true
      ↔ amIndex (b t) = some (laneAt defaultLaneMap s b (t + 1)).firstAmIndex := by
  have hcurrent : (laneAt defaultLaneMap s b (t + 1)).currentAmIndex = (amIndex (b t)).getD 0 := rfl
  rw [AmLockLane.currentEqualFirst, Bool.and_eq_true, beq_iff_eq, hcurrent, amValid_succ]
  cases amIndex (b t) with
  | none =>
    constructor
    · rintro ⟨-, h⟩
      cases h
    · intro h
      cases h
  | some j =>
    rw [Option.getD_some, Option.some.injEq]
    exact and_iff_left rfl

/-! ### Where the lane is in the stream -/

/-- Of the first `n` markers expected behind the block `u`, those that are missing. -/
def missed (u n : Nat) : Nat := (List.range n).countP fun k => Missing b u (k + 1)

/-- The state `d` blocks behind a marker that has brought the lock. -/
def lockedState (u d : Nat) : AmLockState :=
  if d = 0 then .twoGood
  else if d % 16384 ≠ 0 then .countTwo
  else if amIndex (b (u + d)) = amIndex (b u) then .goodAm
  else .invalidAm

/-- The block `u` is the first marker, and `d` blocks have come since then. -/
structure Waiting (u d : Nat) : Prop where
  lt : d < 16384
  state : (laneAt defaultLaneMap s b (u + d + 2)).state = if d = 0 then .firstFound else .countOne
  counter : (laneAt defaultLaneMap s b (u + d + 2)).amCounter.toNat = d
  count : (laneAt defaultLaneMap s b (u + d + 2)).amInvldCnt = 0
  index : amIndex (b u) = some (laneAt defaultLaneMap s b (u + d + 2)).firstAmIndex

/-- The marker in the block `u` has brought the lock, and `d` blocks have come since then. -/
structure Locked (u d : Nat) : Prop where
  second : ∃ first, u = first + 16384 ∧ amIndex (b first) = amIndex (b u)
  before : (laneAt defaultLaneMap s b (u + 1)).outputAmLock = false
  held : ∀ d' ≤ d, (laneAt defaultLaneMap s b (u + d' + 2)).outputAmLock = true
  state : (laneAt defaultLaneMap s b (u + d + 2)).state = lockedState b u d
  counter : (laneAt defaultLaneMap s b (u + d + 2)).amCounter.toNat = d % 16384
  count : (laneAt defaultLaneMap s b (u + d + 2)).amInvldCnt.toNat = missed b u ((d - 1) / 16384)
  index : amIndex (b u) = some (laneAt defaultLaneMap s b (u + d + 2)).firstAmIndex

/-- The lock is about to be given up. -/
def AmLockLane.GivesUp (s : AmLockLane) : Prop := s.state = .invalidAm ∧ s.amInvldCnt = 3

/-- The lane looks for a first marker or waits for a second one. -/
inductive Unlocked (t : Nat) : Prop
  | searching (h : (laneAt defaultLaneMap s b t).state = .findFirst)
  | waiting (u d : Nat) (ht : t = u + d + 2) (h : Waiting defaultLaneMap s b u d)

theorem missed_succ (u n : Nat) :
    missed b u (n + 1) = missed b u n + if Missing b u (n + 1) then 1 else 0 := by
  rw [missed, List.range_succ, List.countP_append, List.countP_singleton, ← missed]
  simp only [decide_eq_true_eq]

theorem missed_le (u n : Nat) : missed b u n ≤ n := by
  have hle := List.countP_le_length (p := fun k => decide (Missing b u (k + 1))) (l := List.range n)
  rwa [List.length_range] at hle

theorem lockedState_between {u d : Nat} (h : d % 16384 ≠ 0) : lockedState b u d = .countTwo := by
  rw [lockedState, if_neg (by omega), if_pos h]

theorem lockedState_good {u k : Nat} (h : ¬Missing b u (k + 1)) :
    lockedState b u (16384 * (k + 1)) = .goodAm := by
  rw [lockedState, if_neg (by omega), if_neg (by omega), if_pos (Classical.not_not.mp h)]

theorem lockedState_invalid {u k : Nat} (h : Missing b u (k + 1)) :
    lockedState b u (16384 * (k + 1)) = .invalidAm := by
  rw [lockedState, if_neg (by omega), if_neg (by omega), if_neg h]

theorem outputAmLock_lockedState {x : AmLockLane} {u d : Nat} (h : x.state = lockedState b u d) :
    x.outputAmLock = true := by
  unfold lockedState at h
  unfold AmLockLane.outputAmLock
  split at h
  · rw [h]
  · split at h
    · rw [h]
    · split at h <;> rw [h]

variable {defaultLaneMap s b}

/-! ### One block more -/

theorem searching_succ {t : Nat} (h : (laneAt defaultLaneMap s b (t + 1)).state = .findFirst) :
    Unlocked defaultLaneMap s b (t + 2) := by
  have hnext := state_succ defaultLaneMap s b (t + 1)
  rw [AmLockLane.nextState, h] at hnext
  dsimp only at hnext
  rw [amValid_succ] at hnext
  cases hindex : amIndex (b t) with
  | none =>
    rw [hindex] at hnext
    exact .searching hnext
  | some i =>
    rw [hindex, Option.isSome_some, if_pos rfl] at hnext
    have hstart : (laneAt defaultLaneMap s b (t + 1)).startAmCounter = false := by
      rw [AmLockLane.startAmCounter, h]
    have hcounter := amCounter_succ defaultLaneMap s b (t + 1)
    rw [hstart, if_neg Bool.false_ne_true] at hcounter
    have hcount := amInvldCnt_succ defaultLaneMap s b (t + 1)
    rw [AmLockLane.nextAmInvldCnt, h] at hcount
    have hfirst := firstAmIndex_succ defaultLaneMap s b (t + 1)
    have hcurrent : (laneAt defaultLaneMap s b (t + 1)).currentAmIndex = (amIndex (b t)).getD 0 :=
      rfl
    rw [if_pos h, hcurrent, hindex, Option.getD_some] at hfirst
    refine .waiting t 0 rfl ⟨by omega, hnext, ?_, hcount, ?_⟩
    · exact congrArg BitVec.toNat hcounter
    · rw [hindex]
      exact congrArg some hfirst.symm

/-- While the second marker is due later. -/
theorem Waiting.succ {u d : Nat} (h : Waiting defaultLaneMap s b u d) (hlt : d + 1 < 16384) :
    Waiting defaultLaneMap s b u (d + 1) := by
  have hstate := h.state
  have hcounter := h.counter
  have hdone : (laneAt defaultLaneMap s b (u + d + 2)).amCounterDone = false := by
    rw [AmLockLane.amCounterDone, beq_eq_false_iff_ne]
    bv_omega
  have hnext : (laneAt defaultLaneMap s b (u + d + 2)).nextState = .countOne
      ∧ (laneAt defaultLaneMap s b (u + d + 2)).startAmCounter = true
      ∧ (laneAt defaultLaneMap s b (u + d + 2)).nextAmInvldCnt
        = (laneAt defaultLaneMap s b (u + d + 2)).amInvldCnt := by
    rw [AmLockLane.nextState, AmLockLane.startAmCounter, AmLockLane.nextAmInvldCnt, hstate, hdone]
    by_cases hzero : d = 0
    · rw [if_pos hzero]
      exact ⟨rfl, rfl, rfl⟩
    · rw [if_neg hzero]
      exact ⟨rfl, rfl, rfl⟩
  obtain ⟨hstate', hstart, hcount'⟩ := hnext
  have hne : (laneAt defaultLaneMap s b (u + d + 2)).state ≠ .findFirst := by
    rw [hstate]
    split <;> decide
  have hindex := firstAmIndex_succ defaultLaneMap s b (u + d + 2)
  rw [if_neg hne] at hindex
  refine ⟨hlt, ?_, ?_, ?_, ?_⟩
  · exact hstate'
  · show (laneAt defaultLaneMap s b (u + d + 2 + 1)).amCounter.toNat = d + 1
    rw [amCounter_succ, hstart, if_pos rfl]
    bv_omega
  · exact hcount'.trans h.count
  · rw [h.index]
    exact congrArg some hindex.symm

/-- When the second marker is due. -/
theorem Waiting.due {u : Nat} (h : Waiting defaultLaneMap s b u 16383) :
    (amIndex (b (u + 16384)) ≠ amIndex (b u) ∧
      (laneAt defaultLaneMap s b (u + 16384 + 2)).state = .findFirst) ∨
    Locked defaultLaneMap s b (u + 16384) 0 := by
  have hstate : (laneAt defaultLaneMap s b (u + 16384 + 1)).state = .countOne := h.state
  have hcounter : (laneAt defaultLaneMap s b (u + 16384 + 1)).amCounter.toNat = 16383 := h.counter
  have hfirst : amIndex (b u) = some (laneAt defaultLaneMap s b (u + 16384 + 1)).firstAmIndex :=
    h.index
  have hzero : (laneAt defaultLaneMap s b (u + 16384 + 1)).amInvldCnt = 0 := h.count
  have hequal := currentEqualFirst_succ defaultLaneMap s b (u + 16384)
  rw [← hfirst] at hequal
  have hdone : (laneAt defaultLaneMap s b (u + 16384 + 1)).amCounterDone = true := by
    rw [AmLockLane.amCounterDone, beq_iff_eq]
    bv_omega
  have hnext := state_succ defaultLaneMap s b (u + 16384 + 1)
  rw [AmLockLane.nextState, hstate] at hnext
  dsimp only at hnext
  rw [hdone, if_pos rfl] at hnext
  have hindex := firstAmIndex_succ defaultLaneMap s b (u + 16384 + 1)
  rw [hstate, if_neg (by decide)] at hindex
  have hstart : (laneAt defaultLaneMap s b (u + 16384 + 1)).startAmCounter = false := by
    rw [AmLockLane.startAmCounter, hstate]
    dsimp only
    rw [hdone]
    rfl
  have hcounter' := amCounter_succ defaultLaneMap s b (u + 16384 + 1)
  rw [hstart, if_neg Bool.false_ne_true] at hcounter'
  have hcount := amInvldCnt_succ defaultLaneMap s b (u + 16384 + 1)
  rw [AmLockLane.nextAmInvldCnt, hstate] at hcount
  by_cases heq : amIndex (b (u + 16384)) = amIndex (b u)
  · right
    rw [hequal.mpr heq, if_pos rfl] at hnext
    refine ⟨⟨u, rfl, heq.symm⟩, ?_, ?_, hnext, ?_, ?_, ?_⟩
    · rw [AmLockLane.outputAmLock, hstate]
    · intro d' hd'
      obtain rfl : d' = 0 := Nat.le_zero.mp hd'
      show (laneAt defaultLaneMap s b (u + 16384 + 1 + 1)).outputAmLock = true
      rw [AmLockLane.outputAmLock, hnext]
    · exact congrArg BitVec.toNat hcounter'
    · show (laneAt defaultLaneMap s b (u + 16384 + 1 + 1)).amInvldCnt.toNat = 0
      rw [hcount]
      exact congrArg BitVec.toNat hzero
    · rw [heq, hfirst]
      exact congrArg some hindex.symm
  · left
    rw [if_neg (mt hequal.mp heq)] at hnext
    exact ⟨heq, hnext⟩

/-- What is left to say of a block in a locked lane. -/
theorem Locked.next {u d : Nat} (h : Locked defaultLaneMap s b u d)
    (hstate : (laneAt defaultLaneMap s b (u + d + 2)).nextState = lockedState b u (d + 1))
    (hcounter : (laneAt defaultLaneMap s b (u + d + 2 + 1)).amCounter.toNat = (d + 1) % 16384)
    (hcount : (laneAt defaultLaneMap s b (u + d + 2)).nextAmInvldCnt.toNat =
      missed b u (d / 16384)) :
    Locked defaultLaneMap s b u (d + 1) := by
  have hlocked := outputAmLock_lockedState b h.state
  have hne : (laneAt defaultLaneMap s b (u + d + 2)).state ≠ .findFirst := by
    intro hfind
    rw [AmLockLane.outputAmLock, hfind] at hlocked
    cases hlocked
  have hindex := firstAmIndex_succ defaultLaneMap s b (u + d + 2)
  rw [if_neg hne] at hindex
  refine ⟨h.second, h.before, ?_, hstate, hcounter, hcount, ?_⟩
  · intro d' hd'
    rcases Nat.lt_or_ge d' (d + 1) with hlt | hge
    · exact h.held d' (by omega)
    · obtain rfl : d' = d + 1 := by omega
      exact outputAmLock_lockedState b hstate
  · rw [h.index]
    exact congrArg some hindex.symm

/-- Between the expected markers. -/
theorem Locked.succ_between {u d : Nat} (h : Locked defaultLaneMap s b u d) (hd : d % 16384 ≠ 0) :
    Locked defaultLaneMap s b u (d + 1) := by
  have hstate := h.state
  have hcounter := h.counter
  rw [lockedState_between b hd] at hstate
  have hcount : (laneAt defaultLaneMap s b (u + d + 2)).nextAmInvldCnt.toNat
      = missed b u (d / 16384) := by
    rw [AmLockLane.nextAmInvldCnt, hstate, show d / 16384 = (d - 1) / 16384 by omega]
    exact h.count
  have hnext : (laneAt defaultLaneMap s b (u + d + 2)).nextState
      = if (laneAt defaultLaneMap s b (u + d + 2)).amCounterDone
        then if (laneAt defaultLaneMap s b (u + d + 2)).currentEqualFirst then .goodAm
          else .invalidAm
        else .countTwo := by
    rw [AmLockLane.nextState, hstate]
  have hstart : (laneAt defaultLaneMap s b (u + d + 2)).startAmCounter
      = !(laneAt defaultLaneMap s b (u + d + 2)).amCounterDone := by
    rw [AmLockLane.startAmCounter, hstate]
  cases hdone : (laneAt defaultLaneMap s b (u + d + 2)).amCounterDone with
  | false =>
    have hsmall : d % 16384 ≠ 16383 := by
      rw [AmLockLane.amCounterDone, beq_eq_false_iff_ne] at hdone
      bv_omega
    apply h.next _ _ hcount
    · rw [hnext, hdone, if_neg Bool.false_ne_true, lockedState_between b (by omega)]
    · rw [amCounter_succ, hstart, hdone, Bool.not_false, if_pos rfl]
      bv_omega
  | true =>
    have hlast : d % 16384 = 16383 := by
      rw [AmLockLane.amCounterDone, beq_iff_eq] at hdone
      bv_omega
    obtain ⟨k, hk⟩ : ∃ k, d + 1 = 16384 * (k + 1) := ⟨d / 16384, by omega⟩
    have hequal : (laneAt defaultLaneMap s b (u + d + 2)).currentEqualFirst = true
        ↔ amIndex (b (u + d + 1)) = amIndex (b u) := by
      rw [h.index]
      exact currentEqualFirst_succ defaultLaneMap s b (u + d + 1)
    rw [Nat.add_assoc u d 1, hk] at hequal
    apply h.next _ _ hcount
    · rw [hnext, hdone, if_pos rfl, hk]
      by_cases hmissing : Missing b u (k + 1)
      · rw [if_neg (mt hequal.mp hmissing), lockedState_invalid b hmissing]
      · rw [if_pos (hequal.mpr (Classical.not_not.mp hmissing)), lockedState_good b hmissing]
    · rw [amCounter_succ, hstart, hdone, Bool.not_true, if_neg Bool.false_ne_true]
      show 0 = (d + 1) % 16384
      omega

/-- Behind a marker that does not end the lock. -/
theorem Locked.next_expected {u d : Nat} (h : Locked defaultLaneMap s b u d) (hd : d % 16384 = 0)
    (hstate : (laneAt defaultLaneMap s b (u + d + 2)).nextState = .countTwo)
    (hstart : (laneAt defaultLaneMap s b (u + d + 2)).startAmCounter = true)
    (hcount : (laneAt defaultLaneMap s b (u + d + 2)).nextAmInvldCnt.toNat =
      missed b u (d / 16384)) :
    Locked defaultLaneMap s b u (d + 1) := by
  have hcounter := h.counter
  apply h.next _ _ hcount
  · rw [hstate, lockedState_between b (by omega)]
  · rw [amCounter_succ, hstart, if_pos rfl]
    bv_omega

/-- Behind the expected markers, unless the lock is given up. -/
theorem Locked.succ_expected {u d : Nat} (h : Locked defaultLaneMap s b u d) (hd : d % 16384 = 0)
    (hstays : ¬(laneAt defaultLaneMap s b (u + d + 2)).GivesUp) :
    Locked defaultLaneMap s b u (d + 1) := by
  have hstate := h.state
  have hcount := h.count
  rcases Nat.eq_zero_or_pos d with hzero | hpos
  · subst hzero
    have htwo : (laneAt defaultLaneMap s b (u + 0 + 2)).state = .twoGood := hstate
    apply h.next_expected hd
    · rw [AmLockLane.nextState, htwo]
    · rw [AmLockLane.startAmCounter, htwo]
    · rw [AmLockLane.nextAmInvldCnt, htwo]
      exact hcount
  · obtain ⟨k, rfl⟩ : ∃ k, d = 16384 * (k + 1) := ⟨d / 16384 - 1, by omega⟩
    have hbefore : (16384 * (k + 1) - 1) / 16384 = k := by omega
    have hnow : 16384 * (k + 1) / 16384 = k + 1 := by omega
    rw [hbefore] at hcount
    by_cases hmissing : Missing b u (k + 1)
    · rw [lockedState_invalid b hmissing] at hstate
      have hne : (laneAt defaultLaneMap s b (u + 16384 * (k + 1) + 2)).amInvldCnt ≠ 3 :=
        fun hthree => hstays ⟨hstate, hthree⟩
      have hdone : (laneAt defaultLaneMap s b (u + 16384 * (k + 1) + 2)).amInvldCntDone = false :=
        beq_eq_false_iff_ne.mpr hne
      apply h.next_expected hd
      · rw [AmLockLane.nextState, hstate]
        dsimp only
        rw [hdone, if_neg Bool.false_ne_true]
      · rw [AmLockLane.startAmCounter, hstate]
        dsimp only
        rw [hdone]
        rfl
      · rw [AmLockLane.nextAmInvldCnt, hstate]
        dsimp only
        rw [hdone, if_neg Bool.false_ne_true, hnow, missed_succ, if_pos hmissing, ← hcount]
        bv_omega
    · rw [lockedState_good b hmissing] at hstate
      apply h.next_expected hd
      · rw [AmLockLane.nextState, hstate]
      · rw [AmLockLane.startAmCounter, hstate]
      · rw [AmLockLane.nextAmInvldCnt, hstate, hnow, missed_succ, if_neg hmissing]
        exact hcount

/-- A locked lane stays locked until the lock is given up. -/
theorem Locked.succ {u d : Nat} (h : Locked defaultLaneMap s b u d)
    (hstays : ¬(laneAt defaultLaneMap s b (u + d + 2)).GivesUp) :
    Locked defaultLaneMap s b u (d + 1) := by
  by_cases hd : d % 16384 = 0
  · exact h.succ_expected hd hstays
  · exact h.succ_between hd

/-- The lock is given up. -/
theorem state_of_givesUp {t : Nat} (h : (laneAt defaultLaneMap s b t).GivesUp) :
    (laneAt defaultLaneMap s b (t + 1)).state = .findFirst := by
  rw [state_succ, AmLockLane.nextState, h.1]
  exact if_pos (beq_iff_eq.mpr h.2)

theorem outputAmLock_findFirst {x : AmLockLane} (h : x.state = .findFirst) :
    x.outputAmLock = false := by
  rw [AmLockLane.outputAmLock, h]

theorem Waiting.outputAmLock {u d : Nat} (h : Waiting defaultLaneMap s b u d) :
    (laneAt defaultLaneMap s b (u + d + 2)).outputAmLock = false := by
  have hstate := h.state
  rw [AmLockLane.outputAmLock, hstate]
  by_cases hzero : d = 0
  · rw [if_pos hzero]
  · rw [if_neg hzero]

theorem Unlocked.outputAmLock {t : Nat} (h : Unlocked defaultLaneMap s b t) :
    (laneAt defaultLaneMap s b t).outputAmLock = false := by
  cases h with
  | searching h => exact outputAmLock_findFirst h
  | waiting u d ht h =>
    subst ht
    exact h.outputAmLock

/-- An unlocked lane stays unlocked, or a second marker has come. -/
theorem Unlocked.succ {t : Nat} (h : Unlocked defaultLaneMap s b (t + 1)) :
    Unlocked defaultLaneMap s b (t + 2) ∨ Locked defaultLaneMap s b t 0 := by
  cases h with
  | searching h => exact Or.inl (searching_succ h)
  | waiting u d ht h =>
    have ht' : t = u + d + 1 := by omega
    subst ht'
    have hlt := h.lt
    rcases Nat.lt_or_ge (d + 1) 16384 with hlater | hdue
    · exact Or.inl (.waiting u (d + 1) rfl (h.succ hlater))
    · obtain rfl : d = 16383 := by omega
      rcases h.due with ⟨-, hfind⟩ | hlocked
      · exact Or.inl (.searching hfind)
      · exact Or.inr hlocked

/-! ### The whole run -/

variable (defaultLaneMap s b) in
/-- In each cycle the lane is locked behind some block or unlocked. -/
theorem unlocked_or_locked (t : Nat) : Unlocked defaultLaneMap s b (t + 1) ∨
    ∃ u d, t + 1 = u + d + 2 ∧ Locked defaultLaneMap s b u d := by
  induction t with
  | zero => exact Or.inl (.searching rfl)
  | succ t ih =>
    rcases ih with hunlocked | ⟨u, d, ht, hlocked⟩
    · rcases hunlocked.succ with h | h
      · exact Or.inl h
      · exact Or.inr ⟨t, 0, rfl, h⟩
    · by_cases hlost : (laneAt defaultLaneMap s b (u + d + 2)).GivesUp
      · left
        rw [ht]
        exact .searching (state_of_givesUp hlost)
      · exact Or.inr ⟨u, d + 1, by omega, hlocked.succ hlost⟩

/-- The lock comes with the second of two markers of one lane. -/
theorem Unlocked.locked_of_raised {t : Nat}
    (h : (laneAt defaultLaneMap s b (t + 1)).outputAmLock = false)
    (hraised : (laneAt defaultLaneMap s b (t + 2)).outputAmLock = true) :
    Locked defaultLaneMap s b t 0 := by
  rcases unlocked_or_locked defaultLaneMap s b t with hunlocked | ⟨u, d, ht, hlocked⟩
  · rcases hunlocked.succ with hno | hlocked
    · rw [hno.outputAmLock] at hraised
      cases hraised
    · exact hlocked
  · have htrue := hlocked.held d (Nat.le_refl d)
    rw [← ht, h] at htrue
    cases htrue

theorem HeldSince.locked {u v : Nat} (h : HeldSince defaultLaneMap s b u v) :
    Locked defaultLaneMap s b u (v - u) := by
  have hle := h.le
  obtain ⟨d, rfl⟩ := Nat.exists_eq_add_of_le hle
  rw [Nat.add_sub_cancel_left]
  have hheld : ∀ d' ≤ d, (laneAt defaultLaneMap s b (u + d' + 2)).outputAmLock = true :=
    fun d' hd' => h.held (u + d') (by omega) (by omega)
  clear hle
  induction d with
  | zero => exact Unlocked.locked_of_raised h.before (hheld 0 (Nat.le_refl 0))
  | succ d ih =>
    have hless : HeldSince defaultLaneMap s b u (u + d) :=
      ⟨by omega, h.before, fun w hlo hhi => h.held w hlo (by omega)⟩
    have hlocked := ih hless fun d' hd' => hheld d' (by omega)
    apply hlocked.succ
    intro hlost
    have hfalse := outputAmLock_findFirst (state_of_givesUp hlost)
    have htrue := hheld (d + 1) (Nat.le_refl _)
    rw [show u + (d + 1) + 2 = u + d + 2 + 1 by omega, hfalse] at htrue
    cases htrue

theorem Locked.heldSince {u d : Nat} (h : Locked defaultLaneMap s b u d) :
    HeldSince defaultLaneMap s b u (u + d) := by
  refine ⟨by omega, h.before, ?_⟩
  intro w hlo hhi
  obtain ⟨d', rfl⟩ := Nat.exists_eq_add_of_le hlo
  exact h.held d' (by omega)

/-- The lock is lost behind the block with which it is given up. -/
theorem Locked.lost_iff {u d : Nat} (h : Locked defaultLaneMap s b u d) :
    (laneAt defaultLaneMap s b (u + d + 4)).amLockO = false
      ↔ (laneAt defaultLaneMap s b (u + d + 2)).GivesUp := by
  show (laneAt defaultLaneMap s b (u + d + 3)).outputAmLock = false ↔ _
  constructor
  · intro hfalse
    by_cases hlost : (laneAt defaultLaneMap s b (u + d + 2)).GivesUp
    · exact hlost
    · have htrue := (h.succ hlost).held (d + 1) (Nat.le_refl _)
      rw [show u + (d + 1) + 2 = u + d + 3 by omega, hfalse] at htrue
      cases htrue
  · intro hlost
    exact outputAmLock_findFirst (state_of_givesUp hlost)

/-- The lock is given up with the fourth marker that is missing. -/
theorem Locked.givesUp_iff {u d : Nat} (h : Locked defaultLaneMap s b u d) :
    (laneAt defaultLaneMap s b (u + d + 2)).GivesUp
      ↔ ∃ k, d = 16384 * (k + 1) ∧ Missing b u (k + 1) ∧ missed b u k = 3 := by
  have hstate := h.state
  have hcount := h.count
  constructor
  · rintro ⟨hinvalid, hthree⟩
    rw [hinvalid] at hstate
    by_cases hd : d % 16384 = 0
    · rcases Nat.eq_zero_or_pos d with hzero | hpos
      · subst hzero
        cases hstate
      · obtain ⟨k, rfl⟩ : ∃ k, d = 16384 * (k + 1) := ⟨d / 16384 - 1, by omega⟩
        refine ⟨k, rfl, ?_, ?_⟩
        · apply Classical.byContradiction
          intro hgood
          rw [lockedState_good b hgood] at hstate
          cases hstate
        · rw [hthree, show (16384 * (k + 1) - 1) / 16384 = k by omega] at hcount
          exact hcount.symm
    · rw [lockedState_between b hd] at hstate
      cases hstate
  · rintro ⟨k, rfl, hmissing, hthree⟩
    rw [lockedState_invalid b hmissing] at hstate
    rw [show (16384 * (k + 1) - 1) / 16384 = k by omega, hthree] at hcount
    exact ⟨hstate, BitVec.eq_of_toNat_eq hcount⟩

/-- While the fourth missing marker has not come. -/
theorem Locked.run {u n : Nat} (h : Locked defaultLaneMap s b u 0)
    (hfew : ∀ k < n, ¬(Missing b u (k + 1) ∧ missed b u k = 3)) :
    ∀ d, d ≤ 16384 * (n + 1) → Locked defaultLaneMap s b u d
  | 0, _ => h
  | d + 1, hd => by
    have hlocked := h.run hfew d (by omega)
    apply hlocked.succ
    rw [hlocked.givesUp_iff]
    rintro ⟨k, rfl, hmissing, hthree⟩
    exact hfew k (by omega) ⟨hmissing, hthree⟩

/-! ### The lane map -/

/-- The bit of the lane whose marker it is. -/
theorem laneMapOf_of_amIndex {x : Block} {i : BitVec 2} (h : amIndex x = some i) (old : BitVec 4) :
    laneMapOf x old = BitVec.twoPow 4 i.toNat := by
  have hbits : ∀ y : Block, nextAm x = nextAm y → x.p.extractLsb' 4 2 = y.p.extractLsb' 4 2 := by
    intro y hy
    apply BitVec.eq_of_getLsbD_eq
    intro j hj
    have hbit := congrArg (fun w => w.getLsbD (4 + j)) hy
    simp only [nextAm, BitVec.getLsbD_append, if_pos (show 4 + j < 24 by omega),
      BitVec.getLsbD_extractLsb', Nat.zero_add, decide_eq_true (show 4 + j < 24 by omega),
      Bool.true_and] at hbit
    rw [BitVec.getLsbD_extractLsb', BitVec.getLsbD_extractLsb', hbit]
  unfold amIndex at h
  unfold laneMapOf
  split at h
  · next h0 =>
    obtain rfl := Option.some.inj h
    rw [hbits _ h0]
    rfl
  · split at h
    · next h1 =>
      obtain rfl := Option.some.inj h
      rw [hbits _ h1]
      rfl
    · split at h
      · next h2 =>
        obtain rfl := Option.some.inj h
        rw [hbits _ h2]
        rfl
      · split at h
        · next h3 =>
          obtain rfl := Option.some.inj h
          rw [hbits _ h3]
          rfl
        · cases h

/-- With the lock comes the lane map. -/
theorem Locked.laneMapO {u : Nat} {i : BitVec 2} (h : Locked defaultLaneMap s b u 0)
    (hi : amIndex (b u) = some i) :
    (laneAt defaultLaneMap s b (u + 3)).laneMapO = BitVec.twoPow 4 i.toNat := by
  have hstate : (laneAt defaultLaneMap s b (u + 2)).state = .twoGood := h.state
  have hvalid : (laneAt defaultLaneMap s b (u + 1)).amValid = true := by
    rw [amValid_succ, hi, Option.isSome_some]
  have hmap : (laneAt defaultLaneMap s b (u + 2)).laneMapD2
      = (laneAt defaultLaneMap s b (u + 1)).laneMap := if_pos hvalid
  calc (laneAt defaultLaneMap s b (u + 3)).laneMapO
      = (laneAt defaultLaneMap s b (u + 2)).laneMapD2 := if_pos hstate
    _ = laneMapOf (b u) (laneAt defaultLaneMap s b u).laneMap := hmap
    _ = BitVec.twoPow 4 i.toNat := laneMapOf_of_amIndex hi _

/-! ### What is asked of the lock -/

variable (defaultLaneMap s b) in
/-- Whenever the lock is given up, the three markers before are missing as well. -/
def MissingInRow : Prop := ∀ t, (laneAt defaultLaneMap s b t).GivesUp → ∀ j, 1 ≤ j → j ≤ 3 →
  amIndex (b (t - 2 - 16384 * j)) ≠ some (laneAt defaultLaneMap s b t).firstAmIndex

/-- Four missing markers in a row end the lock. -/
theorem Locked.givesUp_of_row {u k : Nat} (h : Locked defaultLaneMap s b u (16384 * (k + 4)))
    (hrow : ∀ j < 4, Missing b u (k + 1 + j)) :
    (laneAt defaultLaneMap s b (u + 16384 * (k + 4) + 2)).GivesUp := by
  have hcount := h.count
  have hlt := (laneAt defaultLaneMap s b (u + 16384 * (k + 4) + 2)).amInvldCnt.isLt
  have hthree : missed b u (k + 3) = missed b u k + 3 := by
    rw [missed_succ, missed_succ, missed_succ, if_pos (hrow 0 (by omega)),
      if_pos (hrow 1 (by omega)), if_pos (hrow 2 (by omega))]
  rw [show (16384 * (k + 4) - 1) / 16384 = k + 3 by omega] at hcount
  exact h.givesUp_iff.mpr ⟨k + 3, rfl, hrow 3 (by omega), by omega⟩

/-- The markers before that are missing, by their number. -/
theorem MissingInRow.row {u k : Nat} (hcond : MissingInRow defaultLaneMap s b)
    (h : Locked defaultLaneMap s b u (16384 * (k + 4)))
    (hlost : (laneAt defaultLaneMap s b (u + 16384 * (k + 4) + 2)).GivesUp) :
    ∀ j < 4, Missing b u (k + 1 + j) := by
  intro j hj
  rcases Nat.lt_or_ge j 3 with hbefore | hlast
  · have hmissing := hcond _ hlost (3 - j) (by omega) (by omega)
    rw [← h.index,
      show u + 16384 * (k + 4) + 2 - 2 - 16384 * (3 - j) = u + 16384 * (k + 1 + j) by omega]
      at hmissing
    exact hmissing
  · obtain rfl : j = 3 := by omega
    obtain ⟨k', hk, hmissing, -⟩ := h.givesUp_iff.mp hlost
    obtain rfl : k' = k + 3 := by omega
    exact hmissing

/-- The lock of a held lane goes when, and only when, four markers in a row are missing. -/
theorem MissingInRow.givenUp (hcond : MissingInRow defaultLaneMap s b) {u v : Nat}
    (h : HeldSince defaultLaneMap s b u v) : (laneAt defaultLaneMap s b (v + 4)).amLockO = false ↔
      ∃ k, v = u + 16384 * (k + 4) ∧ ∀ j < 4, Missing b u (k + 1 + j) := by
  have hlocked := h.locked
  obtain ⟨d, rfl⟩ := Nat.exists_eq_add_of_le h.le
  rw [Nat.add_sub_cancel_left] at hlocked
  rw [hlocked.lost_iff]
  constructor
  · intro hlost
    obtain ⟨k', hk, -, hthree⟩ := hlocked.givesUp_iff.mp hlost
    have hle := missed_le b u k'
    obtain ⟨k, rfl⟩ : ∃ k, k' = k + 3 := ⟨k' - 3, by omega⟩
    obtain rfl : d = 16384 * (k + 4) := hk
    exact ⟨k, rfl, hcond.row hlocked hlost⟩
  · rintro ⟨k, hk, hrow⟩
    obtain rfl : d = 16384 * (k + 4) := by omega
    exact hlocked.givesUp_of_row hrow

/-- The markers of a held lane are the blocks at the expected distance. -/
theorem HeldSince.marked {u v : Nat} (h : HeldSince defaultLaneMap s b u v) :
    (laneAt defaultLaneMap s b (v + 3)).amValidO = true ↔ ∃ k, v = u + 16384 * k := by
  have hlocked := h.locked
  obtain ⟨d, rfl⟩ := Nat.exists_eq_add_of_le h.le
  rw [Nat.add_sub_cancel_left] at hlocked
  have hstate := hlocked.state
  show (laneAt defaultLaneMap s b (u + d + 2)).outputIsAm = true ↔ _
  rw [AmLockLane.outputIsAm, hstate]
  by_cases hd : d % 16384 = 0
  · have hk : ∃ k, u + d = u + 16384 * k := ⟨d / 16384, by omega⟩
    apply iff_of_true _ hk
    rcases Nat.eq_zero_or_pos d with hzero | hpos
    · subst hzero
      rfl
    · obtain ⟨k, rfl⟩ : ∃ k, d = 16384 * (k + 1) := ⟨d / 16384 - 1, by omega⟩
      by_cases hmissing : Missing b u (k + 1)
      · rw [lockedState_invalid b hmissing]
      · rw [lockedState_good b hmissing]
  · rw [lockedState_between b hd]
    apply iff_of_false Bool.false_ne_true
    rintro ⟨k, hk⟩
    omega

variable (defaultLaneMap s b) in
/-- The lock comes with two markers of one lane. -/
theorem asserted_two_markers (t : Nat) (hlow : (laneAt defaultLaneMap s b t).amLockO = false)
    (hhigh : (laneAt defaultLaneMap s b (t + 1)).amLockO = true) :
    ∃ u i, t = u + 16384 + 2 ∧ amIndex (b u) = some i ∧ amIndex (b (u + 16384)) = some i := by
  rcases t with _ | t
  · cases hhigh
  · rcases t with _ | t
    · cases hhigh
    · have hlocked := Unlocked.locked_of_raised hlow hhigh
      obtain ⟨u, rfl, hsame⟩ := hlocked.second
      exact ⟨u, _, rfl, hsame.trans hlocked.index, hlocked.index⟩

variable (defaultLaneMap s b) in
/--
**The lock of a lane comes with two markers and goes with four that are missing.**  This holds in
exactly the runs in which, whenever the fourth marker since the lock came is missing, the three
before are missing as well.
-/
theorem locksLane_iff : LocksLane defaultLaneMap s b ↔ MissingInRow defaultLaneMap s b := by
  constructor
  · intro h t hlost j hlo hhi
    rcases t with _ | t
    · cases hlost.1
    · rcases unlocked_or_locked defaultLaneMap s b t with hunlocked | ⟨u, d, ht, hlocked⟩
      · have hfalse := hunlocked.outputAmLock
        rw [AmLockLane.outputAmLock, hlost.1] at hfalse
        cases hfalse
      · rw [ht] at hlost ⊢
        obtain ⟨k, hk, hrow⟩ :=
          (h.givenUp u (u + d) hlocked.heldSince).mp (hlocked.lost_iff.mpr hlost)
        have hmissing := hrow (3 - j) (by omega)
        rw [Missing, hlocked.index] at hmissing
        rwa [show u + d + 2 - 2 - 16384 * j = u + 16384 * (k + 1 + (3 - j)) by omega]
  · intro hcond
    exact ⟨pcsBlockO_succ defaultLaneMap s b, asserted_two_markers defaultLaneMap s b,
      fun u v h => h.marked, fun u v h => hcond.givenUp h⟩

end Run

/-- The blocks 0, 16384 and 49152 are markers of lane 0, and no others are markers. -/
def threeMarkers (t : Nat) : Block :=
  if t = 0 ∨ t = 16384 ∨ t = 49152 then amBlocks 0 else ⟨0b01, 0x1e⟩

/-- The registers at power-up. -/
def AmLockLane.powerUp : AmLockLane :=
  ⟨⟨0, 0⟩, ⟨0, 0⟩, false, 0, 0, 0, 0, 0, 0, .amLockInit, ⟨0, 0⟩, false, false, 0⟩

/-- The first marker has come in the first block. -/
theorem threeMarkers_waiting : Waiting 1 AmLockLane.powerUp threeMarkers 0 0 := by
  refine ⟨by omega, ?_, ?_, ?_, ?_⟩ <;> decide +kernel

/-- The lock is given up though a good marker has come after the first of the missing ones. -/
theorem threeMarkers_not_locksLane : ¬LocksLane 1 AmLockLane.powerUp threeMarkers := by
  intro h
  have hwaiting : ∀ d < 16384, Waiting 1 AmLockLane.powerUp threeMarkers 0 d := by
    intro d hd
    induction d with
    | zero => exact threeMarkers_waiting
    | succ d ih => exact (ih (by omega)).succ hd
  have hsecond : amIndex (threeMarkers (0 + 16384)) = amIndex (threeMarkers 0) := by decide +kernel
  have hcounts :
    (∀ k < 4, ¬(Missing threeMarkers 16384 (k + 1) ∧ missed threeMarkers 16384 k = 3)) ∧
      Missing threeMarkers 16384 5 ∧ missed threeMarkers 16384 4 = 3 ∧
      ¬Missing threeMarkers 16384 2 := by decide +kernel
  obtain ⟨hfew, hfifth, hthree, hgood⟩ := hcounts
  have hlocked : Locked 1 AmLockLane.powerUp threeMarkers 16384 (16384 * 5) := by
    rcases (hwaiting 16383 (by omega)).due with ⟨hne, -⟩ | hlocked
    · exact absurd hsecond hne
    · exact hlocked.run hfew _ (Nat.le_refl _)
  have hlost := hlocked.givesUp_iff.mpr ⟨4, rfl, hfifth, hthree⟩
  obtain ⟨k, hk, hrow⟩ := (h.givenUp _ _ hlocked.heldSince).mp (hlocked.lost_iff.mpr hlost)
  obtain rfl : k = 1 := by omega
  exact hgood (hrow 0 (by omega))

end MlibDevel.FortyGbe
