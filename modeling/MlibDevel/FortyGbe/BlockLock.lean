import Mathlib.Data.List.Count
import Mathlib.Data.List.Infix

/-!
# The block lock (`IEEE802_3_XL_PCS_BLOCK_LOCK.vhd`)

Lock is raised behind 64 good sync headers in a row, and given up with a slip behind 65 bad ones in
a window of 1024.  A header is counted in the state after the one that looks at it, so both counters
are one behind, and so are the numbers they are compared with (`locks_and_slips`).
-/

namespace MlibDevel.FortyGbe

/-! ## The registers -/

/-- `state_type` -/
inductive LockState
  | lockInit
  | resetCnt
  | testSh
  | validSh
  | sixtyFourGood
  | testSh2
  | invalidSh
  | validSh2
  | slip
  | slipDelay
  deriving DecidableEq, Repr

/-- The inputs. -/
structure BlockLockIn where
  rst : Bool
  headerValid : Bool
  header : BitVec 2
  deriving DecidableEq, Repr

/-- `sh_valid` -/
def BlockLockIn.shValid (i : BlockLockIn) : Bool := i.header.getLsbD 0 ^^ i.header.getLsbD 1

/-- The registers of `IEEE802_3_XL_PCS_BLOCK_LOCK`. -/
structure BlockLock where
  state : LockState
  blockLock : Bool
  shCnt : BitVec 11
  shInvldCnt : BitVec 7
  slipDelayCycleCnt : BitVec 3
  slipO : Bool
  blockLockO : Bool
  deriving DecidableEq, Repr

namespace BlockLock

/-- `sh_cnt_64` -/
def shCnt64 (s : BlockLock) : Bool := s.shCnt == 63

/-- `sh_cnt_1024` -/
def shCnt1024 (s : BlockLock) : Bool := s.shCnt == 1023

/-- `sh_invld_cnt_65` -/
def shInvldCnt65 (s : BlockLock) : Bool := s.shInvldCnt == 64

/-- `slip_delay_done` -/
def slipDelayDone (s : BlockLock) : Bool := s.slipDelayCycleCnt == 7

/-- `next_state` -/
def nextState (s : BlockLock) (i : BlockLockIn) : LockState :=
  match s.state with
  | .lockInit => .resetCnt
  | .resetCnt => if s.blockLock then .testSh2 else .testSh
  | .testSh => if i.headerValid then if i.shValid then .validSh else .slip else .testSh
  | .validSh =>
    if s.shCnt64 then .sixtyFourGood
    else if i.headerValid && !i.shValid then .slip
    else .validSh
  | .sixtyFourGood => .resetCnt
  | .testSh2 => if i.headerValid then if i.shValid then .validSh2 else .invalidSh else .testSh2
  | .invalidSh =>
    if s.shInvldCnt65 then .slip
    else if s.shCnt1024 then .resetCnt
    else if i.headerValid && i.shValid then .validSh2
    else .invalidSh
  | .validSh2 =>
    if s.shCnt1024 then .resetCnt
    else if i.headerValid && !i.shValid then .invalidSh
    else .validSh2
  | .slip => .slipDelay
  | .slipDelay => if s.slipDelayDone then .resetCnt else .slipDelay

/-- `SH_COUNT_PROC` -/
def nextShCnt (s : BlockLock) (i : BlockLockIn) : BitVec 11 :=
  match s.state with
  | .resetCnt => 0
  | .validSh | .invalidSh | .validSh2 => if i.headerValid then s.shCnt + 1 else s.shCnt
  | _ => s.shCnt

/-- `SH_INVALID_COUNT_PROC` -/
def nextShInvldCnt (s : BlockLock) (i : BlockLockIn) : BitVec 7 :=
  match s.state with
  | .resetCnt => 0
  | .invalidSh => if i.headerValid then s.shInvldCnt + 1 else s.shInvldCnt
  | _ => s.shInvldCnt

/-- `SLIP_DELAY_PROC` -/
def nextSlipDelayCycleCnt (s : BlockLock) : BitVec 3 :=
  match s.state with
  | .resetCnt => 0
  | .slipDelay => s.slipDelayCycleCnt + 1
  | _ => s.slipDelayCycleCnt

/-- `BLOCK_LOCK_proc` -/
def nextBlockLock (s : BlockLock) : Bool :=
  match s.state with
  | .lockInit => false
  | .sixtyFourGood => true
  | .slip => false
  | _ => s.blockLock

/-- A rising edge of `CLK_I`.  The outputs are low as soon as `RST_I` is high. -/
def edge (s : BlockLock) (i : BlockLockIn) : BlockLock where
  state := if i.rst then .lockInit else s.nextState i
  blockLock := s.nextBlockLock
  shCnt := s.nextShCnt i
  shInvldCnt := s.nextShInvldCnt i
  slipDelayCycleCnt := s.nextSlipDelayCycleCnt
  slipO := !i.rst && s.state == .slip
  blockLockO := !i.rst && s.blockLock

/-- The registers as the reset leaves them, whatever the counters hold. -/
def reset (s : BlockLock) : BlockLock :=
  { s with state := .lockInit, blockLock := false, slipO := false, blockLockO := false }

end BlockLock

/-! ## What is seen of a run -/

/-- A header, or nothing in a cycle in which the receiver stalls. -/
structure HeaderSample where
  headerValid : Bool
  header : BitVec 2
  deriving DecidableEq, Repr

/-- Without a reset. -/
def HeaderSample.toIn (i : HeaderSample) : BlockLockIn := ⟨false, i.headerValid, i.header⟩

/-- The headers up to here, `true` for a good one. -/
def HeaderSample.log (i : HeaderSample) (headers : List Bool) : List Bool :=
  if i.headerValid then headers ++ [i.toIn.shValid] else headers

/-- The lock, with the headers since the last slip and since the counters were reset. -/
structure LockWatch where
  lock : BlockLock
  sinceSlip : List Bool
  sinceReset : List Bool
  deriving DecidableEq, Repr

namespace LockWatch

/-- A clock cycle. -/
def step (w : LockWatch) (i : HeaderSample) : LockWatch where
  lock := w.lock.edge i.toIn
  sinceSlip := if w.lock.state = .slip then [] else i.log w.sinceSlip
  sinceReset := if w.lock.state = .resetCnt then [] else i.log w.sinceReset

/-- The start of a run. -/
def start (s : BlockLock) : LockWatch := ⟨s.reset, [], []⟩

/-- The state after some cycles. -/
def run (w : LockWatch) (is : List HeaderSample) : LockWatch := is.foldl step w

/-- 64 good headers in a row since the last slip. -/
def EnoughGood (w : LockWatch) : Prop := List.replicate 64 true <:+: w.sinceSlip

/-- 65 bad headers among the first 1024 since the counters were reset. -/
def TooManyBad (w : LockWatch) : Prop := ∃ k ≤ 1024, 65 ≤ (w.sinceReset.take k).count false

/-- What a cycle may do to the lock. -/
structure Sound (w : LockWatch) (i : HeaderSample) : Prop where
  raised : w.lock.blockLock = false → (w.step i).lock.blockLock = true → w.EnoughGood
  dropped : w.lock.blockLock = true → (w.step i).lock.blockLock = false → w.TooManyBad
  pulse : w.lock.blockLock = true → (w.step i).lock.blockLock = false →
    w.lock.slipO = false ∧ (w.step i).lock.slipO = true ∧
      ∀ j, ((w.step i).step j).lock.slipO = false
  output : (w.step i).lock.blockLockO = w.lock.blockLock

/-! ## The invariant -/

/-- The headers since the counters were reset are one more than the counter says. -/
structure Windowed (w : LockWatch) (bad : Nat) : Prop where
  locked : w.lock.blockLock = true
  length : w.sinceReset.length = w.lock.shCnt.toNat + 1
  le : w.lock.shCnt.toNat ≤ 1023
  count : w.sinceReset.count false = bad
  invld_le : w.lock.shInvldCnt.toNat ≤ 64

/-- What the counters say in each state. -/
def Counted (w : LockWatch) : Prop :=
  match w.lock.state with
  | .lockInit => w.lock.blockLock = false
  | .resetCnt => True
  | .testSh => w.lock.blockLock = false ∧ w.lock.shCnt = 0
  | .validSh => w.lock.blockLock = false ∧ w.lock.shCnt.toNat ≤ 63 ∧
      List.replicate (w.lock.shCnt.toNat + 1) true <:+ w.sinceSlip
  | .sixtyFourGood => w.EnoughGood
  | .testSh2 =>
    w.lock.blockLock = true ∧ w.lock.shCnt = 0 ∧ w.lock.shInvldCnt = 0 ∧ w.sinceReset = []
  | .invalidSh => w.Windowed (w.lock.shInvldCnt.toNat + 1)
  | .validSh2 => w.Windowed w.lock.shInvldCnt.toNat
  | .slip => w.lock.blockLock = true → w.TooManyBad
  | .slipDelay => w.lock.blockLock = false

/-- The invariant of a run. -/
structure Inv (w : LockWatch) : Prop where
  counted : w.Counted
  slipO : w.lock.slipO = true → w.lock.state = .slipDelay

/-! ## The logs -/

section Logs

variable (w : LockWatch) (i : HeaderSample)

theorem prefix_log (headers : List Bool) : headers <+: i.log headers := by
  unfold HeaderSample.log
  split
  · exact List.prefix_append headers _
  · exact List.prefix_refl headers

theorem log_of_stalled (h : i.headerValid = false) (headers : List Bool) :
    i.log headers = headers := by
  rw [HeaderSample.log, h]
  rfl

theorem log_of_valid (h : i.headerValid = true) (headers : List Bool) :
    i.log headers = headers ++ [i.toIn.shValid] := by
  rw [HeaderSample.log, h]
  rfl

theorem sinceReset_step (h : w.lock.state ≠ .resetCnt) :
    (w.step i).sinceReset = i.log w.sinceReset := if_neg h

theorem sinceSlip_step (h : w.lock.state ≠ .slip) : (w.step i).sinceSlip = i.log w.sinceSlip :=
  if_neg h

theorem state_step : (w.step i).lock.state = w.lock.nextState i.toIn := rfl

theorem blockLock_step : (w.step i).lock.blockLock = w.lock.nextBlockLock := rfl

theorem shCnt_step : (w.step i).lock.shCnt = w.lock.nextShCnt i.toIn := rfl

theorem shInvldCnt_step : (w.step i).lock.shInvldCnt = w.lock.nextShInvldCnt i.toIn := rfl

end Logs

variable {w : LockWatch}

/-- More headers do not undo it. -/
theorem EnoughGood.step (h : w.EnoughGood) (hstate : w.lock.state ≠ .slip) (i : HeaderSample) :
    (w.step i).EnoughGood := by
  rw [EnoughGood, sinceSlip_step w i hstate]
  exact h.trans (prefix_log i _).isInfix

/-- More headers do not undo it. -/
theorem TooManyBad.step (h : w.TooManyBad) (hstate : w.lock.state ≠ .resetCnt) (i : HeaderSample) :
    (w.step i).TooManyBad := by
  obtain ⟨k, hk, hcount⟩ := h
  refine ⟨k, hk, hcount.trans ?_⟩
  rw [sinceReset_step w i hstate]
  exact ((prefix_log i _).take k).sublist.count_le false

theorem Windowed.tooManyBad {bad : Nat} (h : w.Windowed bad) (hbad : 65 ≤ bad) : w.TooManyBad := by
  have hlength := h.length
  have hle := h.le
  refine ⟨w.sinceReset.length, by omega, ?_⟩
  rw [List.take_length, h.count]
  exact hbad

/-! ## Every cycle keeps the invariant -/

theorem Counted.lockInit (hstate : w.lock.state = .lockInit) (i : HeaderSample) :
    (w.step i).Counted := by
  have hnext : (w.step i).lock.state = .resetCnt := by
    rw [state_step, BlockLock.nextState, hstate]
  rw [Counted, hnext]
  trivial

theorem Counted.resetCnt (hstate : w.lock.state = .resetCnt) (i : HeaderSample) :
    (w.step i).Counted := by
  have hcnt : (w.step i).lock.shCnt = 0 := by rw [shCnt_step, BlockLock.nextShCnt, hstate]
  have hinvld : (w.step i).lock.shInvldCnt = 0 := by
    rw [shInvldCnt_step, BlockLock.nextShInvldCnt, hstate]
  have hlock : (w.step i).lock.blockLock = w.lock.blockLock := by
    rw [blockLock_step, BlockLock.nextBlockLock, hstate]
  have hlog : (w.step i).sinceReset = [] := if_pos hstate
  cases hlocked : w.lock.blockLock with
  | true =>
    have hnext : (w.step i).lock.state = .testSh2 := by
      rw [state_step, BlockLock.nextState, hstate, hlocked]
      rfl
    rw [Counted, hnext]
    exact ⟨hlock.trans hlocked, hcnt, hinvld, hlog⟩
  | false =>
    have hnext : (w.step i).lock.state = .testSh := by
      rw [state_step, BlockLock.nextState, hstate, hlocked]
      rfl
    rw [Counted, hnext]
    exact ⟨hlock.trans hlocked, hcnt⟩

/-- The first header of a search for the lock. -/
theorem Counted.testSh (h : w.Counted) (hstate : w.lock.state = .testSh) (i : HeaderSample) :
    (w.step i).Counted := by
  rw [Counted, hstate] at h
  obtain ⟨hlocked, hzero⟩ := h
  have hcnt : (w.step i).lock.shCnt = 0 := by rw [shCnt_step, BlockLock.nextShCnt, hstate, hzero]
  have hlock : (w.step i).lock.blockLock = false := by
    rw [blockLock_step, BlockLock.nextBlockLock, hstate, hlocked]
  have hnext := state_step w i
  rw [BlockLock.nextState, hstate] at hnext
  dsimp only at hnext
  cases hvalid : i.headerValid with
  | false =>
    have hin : i.toIn.headerValid = false := hvalid
    rw [hin, if_neg Bool.false_ne_true] at hnext
    rw [Counted, hnext]
    exact ⟨hlock, hcnt⟩
  | true =>
    have hin : i.toIn.headerValid = true := hvalid
    rw [hin, if_pos rfl] at hnext
    cases hgood : i.toIn.shValid with
    | false =>
      rw [hgood, if_neg Bool.false_ne_true] at hnext
      rw [Counted, hnext]
      intro hlock'
      rw [hlock] at hlock'
      cases hlock'
    | true =>
      rw [hgood, if_pos rfl] at hnext
      rw [Counted, hnext]
      refine ⟨hlock, by rw [hcnt]; decide, ?_⟩
      rw [hcnt, sinceSlip_step w i (by rw [hstate]; decide), log_of_valid i hvalid, hgood]
      exact List.suffix_append _ _

/-- The further headers of a search. -/
theorem Counted.validSh (h : w.Counted) (hstate : w.lock.state = .validSh) (i : HeaderSample) :
    (w.step i).Counted := by
  rw [Counted, hstate] at h
  obtain ⟨hlocked, hle, hgood⟩ := h
  have hlock : (w.step i).lock.blockLock = false := by
    rw [blockLock_step, BlockLock.nextBlockLock, hstate, hlocked]
  have hslip : w.lock.state ≠ .slip := by rw [hstate]; decide
  have hnext := state_step w i
  rw [BlockLock.nextState, hstate] at hnext
  dsimp only at hnext
  split at hnext
  · next h64 =>
    have hcnt : w.lock.shCnt = 63 := eq_of_beq h64
    rw [Counted, hnext]
    rw [hcnt] at hgood
    exact EnoughGood.step hgood.isInfix hslip i
  · next h64 =>
    have hne : w.lock.shCnt ≠ 63 := fun he => h64 (beq_iff_eq.mpr he)
    split at hnext
    · rw [Counted, hnext]
      intro hlock'
      rw [hlock] at hlock'
      cases hlock'
    · next hno =>
      rw [Counted, hnext]
      have hcnt := shCnt_step w i
      rw [BlockLock.nextShCnt, hstate] at hcnt
      dsimp only at hcnt
      rw [sinceSlip_step w i hslip]
      cases hvalid : i.headerValid with
      | false =>
        have hin : i.toIn.headerValid = false := hvalid
        rw [hin, if_neg Bool.false_ne_true] at hcnt
        rw [hcnt, log_of_stalled i hvalid]
        exact ⟨hlock, hle, hgood⟩
      | true =>
        have hin : i.toIn.headerValid = true := hvalid
        have hheader : i.toIn.shValid = true := by simpa [hin] using hno
        rw [hin, if_pos rfl] at hcnt
        have hsucc : (w.step i).lock.shCnt.toNat = w.lock.shCnt.toNat + 1 := by
          rw [hcnt]
          bv_omega
        rw [hsucc, log_of_valid i hvalid, hheader]
        refine ⟨hlock, by bv_omega, ?_⟩
        rw [List.replicate_succ']
        exact List.suffix_append_inj_of_length_eq rfl |>.mpr ⟨hgood, rfl⟩

theorem Counted.sixtyFourGood (hstate : w.lock.state = .sixtyFourGood) (i : HeaderSample) :
    (w.step i).Counted := by
  have hnext : (w.step i).lock.state = .resetCnt := by
    rw [state_step, BlockLock.nextState, hstate]
  rw [Counted, hnext]
  trivial

/-- The first header of a window. -/
theorem Counted.testSh2 (h : w.Counted) (hstate : w.lock.state = .testSh2) (i : HeaderSample) :
    (w.step i).Counted := by
  rw [Counted, hstate] at h
  obtain ⟨hlocked, hzero, hinvld, hlog⟩ := h
  have hcnt : (w.step i).lock.shCnt = 0 := by rw [shCnt_step, BlockLock.nextShCnt, hstate, hzero]
  have hinvld' : (w.step i).lock.shInvldCnt = 0 := by
    rw [shInvldCnt_step, BlockLock.nextShInvldCnt, hstate, hinvld]
  have hlock : (w.step i).lock.blockLock = true := by
    rw [blockLock_step, BlockLock.nextBlockLock, hstate, hlocked]
  have hlog' : (w.step i).sinceReset = i.log [] := by
    rw [sinceReset_step w i (by rw [hstate]; decide), hlog]
  have hnext := state_step w i
  rw [BlockLock.nextState, hstate] at hnext
  dsimp only at hnext
  cases hvalid : i.headerValid with
  | false =>
    have hin : i.toIn.headerValid = false := hvalid
    rw [hin, if_neg Bool.false_ne_true] at hnext
    rw [Counted, hnext]
    exact ⟨hlock, hcnt, hinvld', hlog'.trans (log_of_stalled i hvalid [])⟩
  | true =>
    have hin : i.toIn.headerValid = true := hvalid
    rw [hin, if_pos rfl] at hnext
    rw [log_of_valid i hvalid] at hlog'
    have hlength : (w.step i).sinceReset.length = (w.step i).lock.shCnt.toNat + 1 := by
      rw [hlog', hcnt]
      rfl
    have hle : (w.step i).lock.shCnt.toNat ≤ 1023 := by
      rw [hcnt]
      decide
    have hinvld_le : (w.step i).lock.shInvldCnt.toNat ≤ 64 := by
      rw [hinvld']
      decide
    cases hgood : i.toIn.shValid with
    | false =>
      rw [hgood, if_neg Bool.false_ne_true] at hnext
      rw [Counted, hnext]
      exact ⟨hlock, hlength, hle, by rw [hlog', hinvld', hgood]; rfl, hinvld_le⟩
    | true =>
      rw [hgood, if_pos rfl] at hnext
      rw [Counted, hnext]
      exact ⟨hlock, hlength, hle, by rw [hlog', hinvld', hgood]; rfl, hinvld_le⟩

/-- A window goes on. -/
theorem Windowed.step {bad : Nat} (h : w.Windowed bad) (bad' : Nat)
    (hstate : w.lock.state = .invalidSh ∨ w.lock.state = .validSh2) (i : HeaderSample)
    (h1024 : w.lock.shCnt1024 = false) (hinvld : (w.step i).lock.shInvldCnt.toNat ≤ 64)
    (hbad : bad' = bad + if i.headerValid && !i.toIn.shValid then 1 else 0) :
    (w.step i).Windowed bad' := by
  have hlength := h.length
  have hle := h.le
  have hne : w.lock.shCnt ≠ 1023 := beq_eq_false_iff_ne.mp h1024
  have hreset : w.lock.state ≠ .resetCnt := by
    rcases hstate with hs | hs <;> rw [hs] <;> decide
  have hlock : (w.step i).lock.blockLock = true := by
    rw [blockLock_step, BlockLock.nextBlockLock]
    rcases hstate with hs | hs <;> rw [hs] <;> exact h.locked
  have hcnt : (w.step i).lock.shCnt = if i.headerValid then w.lock.shCnt + 1 else w.lock.shCnt := by
    rw [shCnt_step, BlockLock.nextShCnt]
    rcases hstate with hs | hs <;> rw [hs] <;> rfl
  have hlog := sinceReset_step w i hreset
  cases hvalid : i.headerValid with
  | false =>
    rw [hvalid, if_neg Bool.false_ne_true] at hcnt
    rw [log_of_stalled i hvalid] at hlog
    rw [hvalid] at hbad
    refine ⟨hlock, by rw [hlog, hcnt, hlength], by rw [hcnt]; exact hle, ?_, hinvld⟩
    rw [hlog, h.count, hbad]
    rfl
  | true =>
    rw [hvalid, if_pos rfl] at hcnt
    rw [log_of_valid i hvalid] at hlog
    have hsucc : (w.step i).lock.shCnt.toNat = w.lock.shCnt.toNat + 1 := by
      rw [hcnt]
      bv_omega
    refine ⟨hlock, by rw [hlog, hsucc, List.length_append, hlength]; rfl, by bv_omega, ?_, hinvld⟩
    rw [hlog, List.count_append, h.count, hbad, hvalid]
    cases i.toIn.shValid <;> rfl

/-- The last header was bad, and is counted with the next one. -/
theorem Counted.invalidSh (h : w.Counted) (hstate : w.lock.state = .invalidSh) (i : HeaderSample) :
    (w.step i).Counted := by
  rw [Counted, hstate] at h
  dsimp only at h
  have hinvld := shInvldCnt_step w i
  rw [BlockLock.nextShInvldCnt, hstate] at hinvld
  dsimp only at hinvld
  have hle := h.invld_le
  have hnext := state_step w i
  rw [BlockLock.nextState, hstate] at hnext
  dsimp only at hnext
  split at hnext
  · next h65 =>
    have hcnt : w.lock.shInvldCnt = 64 := eq_of_beq h65
    rw [Counted, hnext]
    intro _
    exact TooManyBad.step (h.tooManyBad (by rw [hcnt]; decide)) (by rw [hstate]; decide) i
  · next h65 =>
    have hne : w.lock.shInvldCnt ≠ 64 := fun he => h65 (beq_iff_eq.mpr he)
    split at hnext
    · rw [Counted, hnext]
      trivial
    · next h1024 =>
      have hwindow := fun bad' => h.step bad' (Or.inl hstate) i (Bool.eq_false_iff.mpr h1024)
      cases hvalid : i.headerValid with
      | false =>
        have hin : i.toIn.headerValid = false := hvalid
        rw [hin, if_neg Bool.false_ne_true] at hinvld
        rw [hin, Bool.false_and, if_neg Bool.false_ne_true] at hnext
        rw [Counted, hnext]
        exact hwindow _ (by rw [hinvld]; exact hle) (by rw [hinvld, hvalid]; rfl)
      | true =>
        have hin : i.toIn.headerValid = true := hvalid
        rw [hin, if_pos rfl] at hinvld
        rw [hin, Bool.true_and] at hnext
        have hsucc : (w.step i).lock.shInvldCnt.toNat = w.lock.shInvldCnt.toNat + 1 := by
          rw [hinvld]
          bv_omega
        have hle' : (w.step i).lock.shInvldCnt.toNat ≤ 64 := by bv_omega
        cases hgood : i.toIn.shValid with
        | false =>
          rw [hgood, if_neg Bool.false_ne_true] at hnext
          rw [Counted, hnext]
          exact hwindow _ hle' (by rw [hsucc, hvalid, hgood]; rfl)
        | true =>
          rw [hgood, if_pos rfl] at hnext
          rw [Counted, hnext]
          exact hwindow _ hle' (by rw [hsucc, hvalid, hgood]; rfl)

/-- The last header was good. -/
theorem Counted.validSh2 (h : w.Counted) (hstate : w.lock.state = .validSh2) (i : HeaderSample) :
    (w.step i).Counted := by
  rw [Counted, hstate] at h
  dsimp only at h
  have hinvld : (w.step i).lock.shInvldCnt = w.lock.shInvldCnt := by
    rw [shInvldCnt_step, BlockLock.nextShInvldCnt, hstate]
  have hle : (w.step i).lock.shInvldCnt.toNat ≤ 64 := by
    rw [hinvld]
    exact h.invld_le
  have hnext := state_step w i
  rw [BlockLock.nextState, hstate] at hnext
  dsimp only at hnext
  split at hnext
  · rw [Counted, hnext]
    trivial
  · next h1024 =>
    have hwindow := fun bad' => h.step bad' (Or.inr hstate) i (Bool.eq_false_iff.mpr h1024) hle
    have hin : i.toIn.headerValid = i.headerValid := rfl
    rw [hin] at hnext
    split at hnext
    · next hbad =>
      rw [Counted, hnext]
      exact hwindow _ (by rw [hinvld, if_pos hbad])
    · next hno =>
      rw [Counted, hnext]
      exact hwindow _ (by rw [hinvld, if_neg hno]; rfl)

theorem Counted.slip (hstate : w.lock.state = .slip) (i : HeaderSample) : (w.step i).Counted := by
  have hnext : (w.step i).lock.state = .slipDelay := by
    rw [state_step, BlockLock.nextState, hstate]
  rw [Counted, hnext]
  exact (blockLock_step w i).trans (by rw [BlockLock.nextBlockLock, hstate])

theorem Counted.slipDelay (h : w.Counted) (hstate : w.lock.state = .slipDelay) (i : HeaderSample) :
    (w.step i).Counted := by
  rw [Counted, hstate] at h
  have hnext := state_step w i
  rw [BlockLock.nextState, hstate] at hnext
  dsimp only at hnext
  split at hnext
  · rw [Counted, hnext]
    trivial
  · rw [Counted, hnext]
    exact (blockLock_step w i).trans (by rw [BlockLock.nextBlockLock, hstate]; exact h)

theorem Counted.step (h : w.Counted) (i : HeaderSample) : (w.step i).Counted := by
  cases hstate : w.lock.state with
  | lockInit => exact Counted.lockInit hstate i
  | resetCnt => exact Counted.resetCnt hstate i
  | testSh => exact h.testSh hstate i
  | validSh => exact h.validSh hstate i
  | sixtyFourGood => exact Counted.sixtyFourGood hstate i
  | testSh2 => exact h.testSh2 hstate i
  | invalidSh => exact h.invalidSh hstate i
  | validSh2 => exact h.validSh2 hstate i
  | slip => exact Counted.slip hstate i
  | slipDelay => exact h.slipDelay hstate i

theorem Inv.step (h : w.Inv) (i : HeaderSample) : (w.step i).Inv where
  counted := h.counted.step i
  slipO hslip := by
    have hstate : w.lock.state = .slip := eq_of_beq hslip
    rw [state_step, BlockLock.nextState, hstate]

theorem start_inv (s : BlockLock) : (start s).Inv := ⟨rfl, fun h => by cases h⟩

theorem Inv.run : ∀ (is : List HeaderSample) (w : LockWatch), w.Inv → (w.run is).Inv
  | [], _, h => h
  | i :: is, w, h => Inv.run is (w.step i) (h.step i)

/-- What the invariant says about a cycle. -/
theorem Inv.sound (h : w.Inv) (i : HeaderSample) : w.Sound i := by
  have hcounted := h.counted
  have hdrop : w.lock.blockLock = true → (w.step i).lock.blockLock = false →
      w.lock.state = .slip ∨ w.lock.state = .lockInit := by
    intro hlocked hunlocked
    rw [blockLock_step, BlockLock.nextBlockLock] at hunlocked
    cases hstate : w.lock.state <;> simp_all
  refine ⟨?_, ?_, ?_, rfl⟩
  · intro hunlocked hlocked
    rw [blockLock_step, BlockLock.nextBlockLock] at hlocked
    cases hstate : w.lock.state <;> rw [hstate] at hlocked <;> dsimp only at hlocked
    case sixtyFourGood =>
      rw [Counted, hstate] at hcounted
      exact hcounted
    all_goals simp_all
  · intro hlocked hunlocked
    rcases hdrop hlocked hunlocked with hstate | hstate
    · rw [Counted, hstate] at hcounted
      exact hcounted hlocked
    · rw [Counted, hstate] at hcounted
      rw [hlocked] at hcounted
      cases hcounted
  · intro hlocked hunlocked
    rcases hdrop hlocked hunlocked with hstate | hstate
    · have hbefore : w.lock.slipO = false := by
        cases hslip : w.lock.slipO with
        | false => rfl
        | true =>
          have hdelay := h.slipO hslip
          rw [hstate] at hdelay
          cases hdelay
      have hpulse : (w.step i).lock.slipO = true := beq_iff_eq.mpr hstate
      have hnext : (w.step i).lock.state = .slipDelay := by
        rw [state_step, BlockLock.nextState, hstate]
      refine ⟨hbefore, hpulse, fun j => ?_⟩
      exact beq_eq_false_iff_ne.mpr (by rw [hnext]; decide)
    · rw [Counted, hstate] at hcounted
      rw [hlocked] at hcounted
      cases hcounted

/--
**Lock is raised behind 64 good headers in a row, and dropped with one slip behind 65 bad ones of at
most 1024.**

In every cycle of every run, whichever headers come and whenever the receiver stalls.  The output
shows the lock a cycle later.
-/
theorem locks_and_slips (s : BlockLock) (is : List HeaderSample) (i : HeaderSample) :
    ((start s).run is).Sound i :=
  (Inv.run is (start s) (start_inv s)).sound i

end LockWatch

end MlibDevel.FortyGbe
