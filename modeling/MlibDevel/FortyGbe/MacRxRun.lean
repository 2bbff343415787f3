import MlibDevel.FortyGbe.MacRxWords

/-!
# Runs of the receiver (`SKA_40GBE_MAC/ska_mac_rx.vhd`)

The words of a frame that begins in cycle `t` are aligned from cycle `t + 1` on
(`RxRun.recording`).  Those that the check is calculated of come two cycles later, without the check
sequence (`RxRun.masked`).
-/

namespace MlibDevel.FortyGbe

open Lib

/-- A run without a reset -/
structure RxRun (x : Nat → MacRxIn) (R : Nat → MacRx) : Prop where
  run : ∀ c, (x c).macRst = false
  step : ∀ c, R (c + 1) = (R c).edge (x c)

/-- Between frames: what comes next is not part of the frame before. -/
structure MacRx.Ready (s : MacRx) : Prop where
  idle : s.currentMacState = .idle
  useNext : s.useNextXlgmiiRxdCrcMasked = false
  masked : s.finishedPacket = true ∨ ∀ i, s.xlgmiiRxAlignedZ1.c i = true

namespace RxRun

variable {x : Nat → MacRxIn} {R : Nat → MacRx}

section Registers

variable (h : RxRun x R) (c : Nat)

include h

theorem state :
    (R (c + 1)).currentMacState
    = ((R c).nextMacState (x c) ((R c).terminateByteFound (x c))).1 := by
  rw [h.step, MacRx.edge, h.run]
  rfl

theorem clear :
    (R (c + 1)).clearFinishedPacket
    = ((R c).nextMacState (x c) ((R c).terminateByteFound (x c))).2 := by
  rw [h.step, MacRx.edge, h.run]
  rfl

theorem stateZ1 : (R (c + 1)).currentMacStateZ1 = (R c).currentMacState := by
  rw [h.step, MacRx.edge, h.run]
  rfl

theorem crcReset :
    (R (c + 3)).crcReset = ((R c).nextMacState (x c) ((R c).terminateByteFound (x c))).2 := by
  rw [h.step (c + 2)]
  show (R (c + 1 + 1)).crcDoResetZ1 = _
  rw [h.step (c + 1)]
  show (R (c + 1)).crcDoReset = _
  rw [h.step, MacRx.edge, h.run]
  rfl

theorem alignedZ1 :
    (R (c + 1)).xlgmiiRxAlignedZ1 = (R c).xlgmiiRxAligned (x c) := by rw [h.step, MacRx.edge]

theorem rxZ1 : (R (c + 1)).xlgmiiRxZ1 = (x c).xlgmiiRx := by rw [h.step, MacRx.edge]

theorem masks : (R (c + 1)).xlgmiiRxCrcMasked = ((R c).crcMasked (x c)).xlgmiiRxCrcMasked
    ∧ (R (c + 1)).nextXlgmiiRxCrcMasked = ((R c).crcMasked (x c)).nextXlgmiiRxCrcMasked
    ∧ (R (c + 1)).useNextXlgmiiRxdCrcMasked = ((R c).crcMasked (x c)).useNextXlgmiiRxdCrcMasked
    ∧ (R (c + 1)).finishedPacket = ((R c).crcMasked (x c)).finishedPacket
    ∧ (R (c + 1)).receivedCrc = ((R c).crcMasked (x c)).receivedCrc := by
  rw [h.step, MacRx.edge, h.run]
  exact ⟨rfl, rfl, rfl, rfl, rfl⟩

theorem crcRun :
    CrcRun (fun c => (R c).crc) (fun c => (R c).crcReset) (fun c => (R c).xlgmiiRxCrcMasked.d)
    fun c => (R c).xlgmiiRxCrcMasked.c where
  step := fun c => by
    show (R (c + 1)).crc = _
    rw [h.step, MacRx.edge, h.run]

theorem macRxData : (R (c + 5)).macRxData = ⟨(R c).xlgmiiRxCrcMasked.d,
    if (R c).currentMacStateZ1 ≠ .idle then (R c).xlgmiiRxCrcMasked.c else maskOf 0⟩ := by
  show (R (c + 4 + 1)).macRxIZ4 = _
  rw [h.step (c + 4)]
  show (R (c + 3 + 1)).macRxIZ3 = _
  rw [h.step (c + 3)]
  show (R (c + 2 + 1)).macRxIZ2 = _
  rw [h.step (c + 2)]
  show (R (c + 1 + 1)).macRxIZ1 = _
  rw [h.step (c + 1)]
  show (R (c + 1)).macRxI = _
  rw [h.step c]
  rfl

theorem terminateZ6 : (R (c + 6)).terminateByteFoundZ6 = (R c).terminateByteFound (x c) := by
  rw [h.step (c + 5)]
  show (R (c + 4 + 1)).terminateByteFoundZ5 = _
  rw [h.step (c + 4)]
  show (R (c + 3 + 1)).terminateByteFoundZ4 = _
  rw [h.step (c + 3)]
  show (R (c + 2 + 1)).terminateByteFoundZ3 = _
  rw [h.step (c + 2)]
  show (R (c + 1 + 1)).terminateByteFoundZ2 = _
  rw [h.step (c + 1)]
  show (R (c + 1)).terminateByteFoundZ1 = _
  rw [h.step c]
  rfl

theorem receivedZ3 : (R (c + 3)).receivedCrcZ3 = (R c).receivedCrc := by
  rw [h.step (c + 2)]
  show (R (c + 1 + 1)).receivedCrcZ2 = _
  rw [h.step (c + 1)]
  show (R (c + 1)).receivedCrcZ1 = _
  rw [h.step c]
  rfl

theorem stays_idle (hready : (R c).Ready) (hquiet : Quiet (x c)) :
    (R (c + 1)).currentMacState = .idle := by
  rw [h.state, MacRx.nextMacState_quiet hready.idle hquiet]

/-- No end of a frame is seen. -/
theorem masks_none (hnext : (R c).useNextXlgmiiRxdCrcMasked = false)
    (hnone : terminateLane ((R c).xlgmiiRxAligned (x c)) = none) :
    (R (c + 1)).xlgmiiRxCrcMasked = ⟨(R c).xlgmiiRxAlignedZ1.d,
        if (R c).finishedPacket then maskOf 0 else fun n => !(R c).xlgmiiRxAlignedZ1.c n⟩
      ∧ (R (c + 1)).useNextXlgmiiRxdCrcMasked = false
      ∧ (R (c + 1)).finishedPacket = ((R c).finishedPacket && !(R c).clearFinishedPacket)
      ∧ (R (c + 1)).receivedCrc = (R c).receivedCrc
      ∧ (R c).terminateByteFound (x c) = false := by
  obtain ⟨hmasked, -, huse, hfinished, hreceived⟩ := h.masks c
  rw [hmasked, huse, hfinished, hreceived, MacRx.crcMasked, MacRx.terminateByteFound, hnone, hnext]
  exact ⟨rfl, rfl, rfl, rfl, rfl⟩

/-- The end of a frame is seen in one of the first lanes: the word before it is the last. -/
theorem masks_short (hnext : (R c).useNextXlgmiiRxdCrcMasked = false) {k : Fin 32}
    (hsome : terminateLane ((R c).xlgmiiRxAligned (x c)) = some k) (hk : k.val < 5) :
    (R (c + 1)).xlgmiiRxCrcMasked = ⟨(R c).xlgmiiRxAlignedZ1.d, maskOf (28 + k)⟩
      ∧ (R (c + 1)).useNextXlgmiiRxdCrcMasked = false ∧ (R (c + 1)).finishedPacket = true
      ∧ (R (c + 1)).receivedCrc = crcBefore (R c).xlgmiiRxAlignedZ1 ((R c).xlgmiiRxAligned (x c)) k
      ∧ (R c).terminateByteFound (x c) = true := by
  obtain ⟨hmasked, -, huse, hfinished, hreceived⟩ := h.masks c
  rw [hmasked, huse, hfinished, hreceived, MacRx.crcMasked, MacRx.terminateByteFound, hsome, hnext]
  dsimp only
  rw [if_neg Bool.false_ne_true, if_pos hk, decide_eq_true hk]
  exact ⟨rfl, rfl, rfl, rfl, rfl⟩

/-- The end of a frame is seen in another lane: this word is the last. -/
theorem masks_long (hnext : (R c).useNextXlgmiiRxdCrcMasked = false) {k : Fin 32}
    (hsome : terminateLane ((R c).xlgmiiRxAligned (x c)) = some k) (hk : ¬k.val < 5) :
    (R (c + 1)).xlgmiiRxCrcMasked = ⟨(R c).xlgmiiRxAlignedZ1.d, maskOf 32⟩
      ∧ (R (c + 1)).nextXlgmiiRxCrcMasked = ⟨((R c).xlgmiiRxAligned (x c)).d, maskOf (k - 4)⟩
      ∧ (R (c + 1)).useNextXlgmiiRxdCrcMasked = true
      ∧ (R (c + 1)).receivedCrc = crcBefore (R c).xlgmiiRxAlignedZ1 ((R c).xlgmiiRxAligned (x c)) k
      ∧ (R c).terminateByteFound (x c) = false := by
  obtain ⟨hmasked, hnextmask, huse, -, hreceived⟩ := h.masks c
  rw [hmasked, hnextmask, huse, hreceived, MacRx.crcMasked, MacRx.terminateByteFound, hsome, hnext]
  dsimp only
  rw [if_neg Bool.false_ne_true, if_neg hk, decide_eq_false hk]
  exact ⟨rfl, rfl, rfl, rfl, rfl⟩

/-- The last word was in the cycle before. -/
theorem masks_next (hnext : (R c).useNextXlgmiiRxdCrcMasked = true) :
    (R (c + 1)).xlgmiiRxCrcMasked = (R c).nextXlgmiiRxCrcMasked
      ∧ (R (c + 1)).useNextXlgmiiRxdCrcMasked = false ∧ (R (c + 1)).finishedPacket = true
      ∧ (R (c + 1)).receivedCrc = (R c).receivedCrc ∧ (R c).terminateByteFound (x c) = true := by
  obtain ⟨hmasked, -, huse, hfinished, hreceived⟩ := h.masks c
  rw [hmasked, huse, hfinished, hreceived, MacRx.crcMasked, MacRx.terminateByteFound, hnext]
  refine ⟨rfl, rfl, rfl, rfl, ?_⟩
  cases terminateLane ((R c).xlgmiiRxAligned (x c)) with
  | none => rfl
  | some k => exact Bool.or_true _

/-- Between frames nothing is valid, and this stays so for two cycles. -/
theorem between (hready : (R c).Ready)
    (hnone : terminateLane ((R (c + 1)).xlgmiiRxAligned (x (c + 1))) = none) :
    (R (c + 1)).xlgmiiRxCrcMasked.c = maskOf 0 ∧ (R (c + 2)).xlgmiiRxCrcMasked.c = maskOf 0
      ∧ (R c).terminateByteFound (x c) = false ∧ (R (c + 1)).terminateByteFound (x (c + 1)) = false
      ∧ (R (c + 1)).useNextXlgmiiRxdCrcMasked = false ∧ (R (c + 1)).receivedCrc = (R c).receivedCrc
      ∧ (R (c + 2)).receivedCrc = (R c).receivedCrc ∧ (R (c + 1)).xlgmiiRxAlignedZ1 = cIdle := by
  have haligned : (R c).xlgmiiRxAligned (x c) = cIdle := by rw [MacRx.xlgmiiRxAligned, hready.idle]
  have hlane : terminateLane ((R c).xlgmiiRxAligned (x c)) = none := by
    rw [haligned]
    exact terminateLane_idle
  obtain ⟨hmasked, huse, -, hreceived, hterm⟩ := h.masks_none c hready.useNext hlane
  have hz1 := h.alignedZ1 c
  rw [haligned] at hz1
  obtain ⟨hmasked', -, -, hreceived', hterm'⟩ := h.masks_none (c + 1) huse hnone
  have hnot : (fun n => !cIdle.c n) = maskOf 0 := by funext n; simp [cIdle, maskOf]
  refine ⟨?_, ?_, hterm, hterm', huse, hreceived, by rw [hreceived', hreceived], hz1⟩
  · rw [hmasked]
    rcases hready.masked with hfinished | hcontrol
    · rw [hfinished]
      rfl
    · show (if _ then maskOf 0 else fun n => !(R c).xlgmiiRxAlignedZ1.c n) = maskOf 0
      have hnone : (fun n => !(R c).xlgmiiRxAlignedZ1.c n) = maskOf 0 := by
        funext n
        simp [hcontrol n, maskOf]
      rw [hnone, ite_self]
  · rw [hmasked', hz1]
    show (if _ then maskOf 0 else fun n => !cIdle.c n) = maskOf 0
    rw [hnot, ite_self]

end Registers

section Frames

variable {t a : Nat} {payload : List (BitVec 8)} {check : BitVec 32}

theorem aligned_recording (h : RxRun x R) {c : Nat} (ha : a < 4)
    (hstate : (R (c + 1)).currentMacState = recAligned a) :
    (R (c + 1)).xlgmiiRxAligned (x (c + 1))
      = wordAt (fun c => (x c).xlgmiiRx) (32 * c + 8 * a + 8) := by
  have hwords : alignedFrom (8 * a + 8) (R (c + 1)).xlgmiiRxZ1 (x (c + 1)).xlgmiiRx
      = wordAt (fun c => (x c).xlgmiiRx) (32 * c + 8 * a + 8) := by
    rw [h.rxZ1]
    exact alignedFrom_eq (fun c => (x c).xlgmiiRx) c (by omega)
  rw [← hwords, MacRx.xlgmiiRxAligned, hstate]
  have hcases : a = 0 ∨ a = 1 ∨ a = 2 ∨ a = 3 := by omega
  rcases hcases with rfl | rfl | rfl | rfl <;> rfl

variable (h : RxRun x R) (hready : (R t).Ready) (henable : (x t).macRxEnable = true)
  (hframe : FrameAt (fun c => (x c).xlgmiiRx) t a payload check)

include hready henable hframe

theorem started :
    (R t).nextMacState (x t) ((R t).terminateByteFound (x t)) = (recAligned a, true) :=
  MacRx.nextMacState_start hready.idle henable hframe.lane hframe.startByteAt_lane _

include h

/-- **A frame is received** word by word until its last. -/
theorem recording : ∀ j ≤ lastWord payload, (R (t + 1 + j)).currentMacState = recAligned a
    ∧ (R (t + 1 + j)).useNextXlgmiiRxdCrcMasked = false
    ∧ (R (t + 1 + j)).xlgmiiRxAligned (x (t + 1 + j))
      = wordAt (fun c => (x c).xlgmiiRx) (32 * (t + j) + 8 * a + 8) := by
  intro j
  induction j with
  | zero =>
    intro _
    have hstate : (R (t + 1)).currentMacState = recAligned a := by
      rw [h.state, started hready henable hframe]
    have hlane : terminateLane ((R t).xlgmiiRxAligned (x t)) = none := by
      rw [MacRx.xlgmiiRxAligned, hready.idle]
      exact terminateLane_idle
    exact ⟨hstate, (h.masks_none t hready.useNext hlane).2.1,
      h.aligned_recording hframe.lane hstate⟩
  | succ j ih =>
    intro hj
    obtain ⟨hstate, hnext, haligned⟩ := ih (by omega)
    have hnone := (hframe.terminateLane_word (j := j) (by omega)).2
    rw [← haligned] at hnone
    obtain ⟨-, hnext', -, -, hterm⟩ := h.masks_none (t + 1 + j) hnext hnone
    have hstate' : (R (t + 1 + (j + 1))).currentMacState = recAligned a := by
      rw [show t + 1 + (j + 1) = t + 1 + j + 1 by omega, h.state,
        MacRx.nextMacState_recording hstate, hterm]
      rfl
    refine ⟨hstate', hnext', ?_⟩
    rw [show t + 1 + (j + 1) = t + (j + 1) + 1 by omega] at hstate' ⊢
    exact h.aligned_recording hframe.lane hstate'

/-- The words before the last have no end. -/
theorem recording_none {j : Nat} (hj : j < lastWord payload) :
    terminateLane ((R (t + 1 + j)).xlgmiiRxAligned (x (t + 1 + j))) = none := by
  rw [(h.recording hready henable hframe j (by omega)).2.2]
  exact (hframe.terminateLane_word hj).2

/-- From the second word on it is known that the frame is not finished. -/
theorem not_finished :
    ∀ j, 1 ≤ j → j ≤ lastWord payload → (R (t + 1 + j)).finishedPacket = false := by
  intro j hj1 hj
  induction j, hj1 using Nat.le_induction with
  | base =>
    have hmasks := h.masks_none (t + 1) (h.recording hready henable hframe 0 (by omega)).2.1
      (h.recording_none hready henable hframe (j := 0) (by omega))
    rw [hmasks.2.2.1, h.clear, started hready henable hframe]
    exact Bool.and_false _
  | succ j hj1 ih =>
    have hmasks := h.masks_none (t + 1 + j) (h.recording hready henable hframe j (by omega)).2.1
      (h.recording_none hready henable hframe (j := j) (by omega))
    rw [show t + 1 + (j + 1) = t + 1 + j + 1 by omega, hmasks.2.2.1, ih (by omega)]
    rfl

/-- The words before the last two are valid as a whole. -/
theorem masked_whole {j : Nat} (hj : j + 1 < lastWord payload) :
    (R (t + 3 + j)).xlgmiiRxCrcMasked
      = ⟨(wordAt (fun c => (x c).xlgmiiRx) (32 * (t + j) + 8 * a + 8)).d, maskOf 32⟩ := by
  have hrec := h.recording hready henable hframe (j + 1) (by omega)
  have hmasks := h.masks_none (t + 1 + (j + 1)) hrec.2.1 (h.recording_none hready henable hframe hj)
  have hz1 := h.alignedZ1 (t + 1 + j)
  rw [(h.recording hready henable hframe j (by omega)).2.2] at hz1
  have hnot : (fun n => !(wordAt (fun c => (x c).xlgmiiRx) (32 * (t + j) + 8 * a + 8)).c n)
    = maskOf 32 := by
    funext n
    rw [(hframe.terminateLane_word (j := j) (by omega)).1 n]
    simp [maskOf]
  rw [show t + 3 + j = t + 1 + (j + 1) + 1 by omega, hmasks.1,
    h.not_finished hready henable hframe (j + 1) (by omega) (by omega)]
  rw [show t + 1 + (j + 1) = t + 1 + j + 1 by omega, hz1]
  show (⟨_, if false = true then _ else _⟩ : MacWord) = _
  rw [if_neg Bool.false_ne_true, hnot]

/-- The last word but one, when the end is seen -/
theorem before_end {m : Nat} (hm : lastWord payload = m + 1) :
    (R (t + 1 + lastWord payload)).xlgmiiRxAlignedZ1 =
      wordAt (fun c => (x c).xlgmiiRx) (32 * (t + m) + 8 * a + 8)
      ∧ crcBefore (R (t + 1 + lastWord payload)).xlgmiiRxAlignedZ1
          ((R (t + 1 + lastWord payload)).xlgmiiRxAligned (x (t + 1 + lastWord payload)))
          (Fin.ofNat 32 (payload.length + 4)) = check
      ∧ terminateLane ((R (t + 1 + lastWord payload)).xlgmiiRxAligned
        (x (t + 1 + lastWord payload)))
        = some (Fin.ofNat 32 (payload.length + 4)) := by
  have hlast := (h.recording hready henable hframe (lastWord payload) (Nat.le_refl _)).2.2
  have hz1 := h.alignedZ1 (t + 1 + m)
  rw [(h.recording hready henable hframe m (by omega)).2.2] at hz1
  rw [show t + 1 + lastWord payload = t + 1 + m + 1 by omega] at hlast ⊢
  refine ⟨hz1, ?_, by rw [hlast]; exact hframe.terminateLane_last⟩
  rw [hz1, hlast, hm]
  exact hframe.crcBefore_last hm

end Frames

/-- The end of a frame: in the cycle of the terminate byte or the next it is found, and what is left
of the payload is the last that is valid. -/
structure FrameEnd (x : Nat → MacRxIn) (R : Nat → MacRx) (t a : Nat) (payload : List (BitVec 8))
    (check : BitVec 32) : Prop where
  ready : (R (t + lastWord payload + 3)).Ready
  received : (R (t + lastWord payload + 3)).receivedCrc = check
  before : ∀ m, lastWord payload = m + 1 →
    (R (t + lastWord payload + 2)).xlgmiiRxCrcMasked =
      ⟨(wordAt (fun c => (x c).xlgmiiRx) (32 * (t + m) + 8 * a + 8)).d,
        maskOf (payload.length - 32 * m)⟩
  last : (R (t + lastWord payload + 3)).xlgmiiRxCrcMasked.c =
    maskOf (payload.length - 32 * lastWord payload)
  rest : 32 * lastWord payload < payload.length →
    (R (t + lastWord payload + 3)).xlgmiiRxCrcMasked.d
      = (wordAt (fun c => (x c).xlgmiiRx) (32 * (t + lastWord payload) + 8 * a + 8)).d
    ∧ (R (t + lastWord payload + 2)).currentMacState ≠ .idle
  found : (R (t + lastWord payload + 1)).terminateByteFound (x (t + lastWord payload + 1))
    = decide (payload.length ≤ 32 * lastWord payload)
  foundNext : (R (t + lastWord payload + 2)).terminateByteFound (x (t + lastWord payload + 2))
    = decide (32 * lastWord payload < payload.length)

section Ends

variable {t a : Nat} {payload : List (BitVec 8)} {check : BitVec 32} (h : RxRun x R)
  (hready : (R t).Ready) (henable : (x t).macRxEnable = true)
  (hframe : FrameAt (fun c => (x c).xlgmiiRx) t a payload check)
  (hquiet : ∀ c, t + lastWord payload < c → c < t + lastWord payload + 3 → Quiet (x c))

include h hready henable hframe

include hquiet in
/-- The end is in one of the first lanes. -/
theorem frameEnd_short (hk : (payload.length + 4) % 32 < 5) : FrameEnd x R t a payload check := by
  have hlong := hframe.long
  have hm : lastWord payload = (lastWord payload - 1) + 1 := by rw [lastWord]; omega
  have hlen : 32 * lastWord payload + (payload.length + 4) % 32 = payload.length + 4 := by
    rw [lastWord]
    omega
  have hval : (Fin.ofNat 32 (payload.length + 4)).val = (payload.length + 4) % 32 := rfl
  obtain ⟨hstate, hnext, -⟩ := h.recording hready henable hframe (lastWord payload) (Nat.le_refl _)
  obtain ⟨hz1, hcrc, hlane⟩ := h.before_end hready henable hframe hm
  obtain ⟨hmasked, hnext1, hfinished1, hreceived1, hterm⟩ := h.masks_short _ hnext hlane hk
  have hadd : t + 1 + lastWord payload = t + lastWord payload + 1 := by omega
  have hclear := h.clear (t + 1 + lastWord payload)
  have hidle := h.state (t + 1 + lastWord payload)
  rw [MacRx.nextMacState_recording hstate, hterm] at hclear hidle
  rw [hcrc] at hreceived1
  rw [hz1] at hmasked
  rw [hadd] at hmasked hnext1 hfinished1 hreceived1 hterm hclear hidle
  -- the cycle behind the end: nothing more is seen
  have hready1 : (R (t + lastWord payload + 2)).Ready := ⟨hidle, hnext1, .inl hfinished1⟩
  have haligned : (R (t + lastWord payload + 2)).xlgmiiRxAligned (x (t + lastWord payload + 2))
    = cIdle := by
    rw [MacRx.xlgmiiRxAligned, hready1.idle]
  obtain ⟨hmasked2, hnext2, hfinished2, hreceived2, hterm2⟩ :=
    h.masks_none (t + lastWord payload + 2) hnext1 (by rw [haligned]; exact terminateLane_idle)
  rw [hfinished1] at hmasked2
  have hfinished3 : (R (t + lastWord payload + 3)).finishedPacket = true := by
    rw [hfinished2, hfinished1, hclear]
    rfl
  refine ⟨⟨h.stays_idle _ hready1 (hquiet _ (by omega) (by omega)), hnext2, .inl hfinished3⟩, ?_,
    ?_, ?_, ?_, ?_, ?_⟩
  · rw [hreceived2, hreceived1]
  · intro m hm'
    rw [show lastWord payload - 1 = m by omega] at hmasked
    rw [hmasked, hval, show 28 + (payload.length + 4) % 32 = payload.length - 32 * m by omega]
  · rw [hmasked2, show payload.length - 32 * lastWord payload = 0 by omega]
    rfl
  · intro hlt
    omega
  · rw [hterm, decide_eq_true (by omega)]
  · rw [hterm2, decide_eq_false (by omega)]

/-- The end is in another lane. -/
theorem frameEnd_long (hk : ¬(payload.length + 4) % 32 < 5) : FrameEnd x R t a payload check := by
  have hlong := hframe.long
  have hm : lastWord payload = (lastWord payload - 1) + 1 := by rw [lastWord]; omega
  have hlen : 32 * lastWord payload + (payload.length + 4) % 32 = payload.length + 4 := by
    rw [lastWord]
    omega
  have hval : (Fin.ofNat 32 (payload.length + 4)).val = (payload.length + 4) % 32 := rfl
  obtain ⟨hstate, hnext, haligned⟩ := h.recording hready henable hframe (lastWord payload)
    (Nat.le_refl _)
  obtain ⟨hz1, hcrc, hlane⟩ := h.before_end hready henable hframe hm
  obtain ⟨hmasked, hmasked', hnext1, hreceived1, hterm⟩ := h.masks_long _ hnext hlane hk
  have hadd : t + 1 + lastWord payload = t + lastWord payload + 1 := by omega
  have hrec := h.state (t + 1 + lastWord payload)
  rw [MacRx.nextMacState_recording hstate, hterm] at hrec
  rw [hcrc] at hreceived1
  rw [hz1] at hmasked
  rw [haligned] at hmasked'
  rw [hadd] at hmasked hmasked' hnext1 hreceived1 hterm hrec
  -- the cycle behind the end: the last word comes
  obtain ⟨hmasked2, hnext2, hfinished2, hreceived2, hterm2⟩ := h.masks_next
    (t + lastWord payload + 2) hnext1
  have hidle : (R (t + lastWord payload + 3)).currentMacState = .idle := by
    rw [h.state (t + lastWord payload + 2), MacRx.nextMacState_recording hrec, hterm2]
    rfl
  rw [hmasked'] at hmasked2
  refine ⟨⟨hidle, hnext2, .inl hfinished2⟩, ?_, ?_, ?_, ?_, ?_, ?_⟩
  · rw [hreceived2, hreceived1]
  · intro m hm'
    rw [show lastWord payload - 1 = m by omega] at hmasked
    rw [hmasked, maskOf_of_le (n := payload.length - 32 * m) (by omega)]
  · rw [hmasked2, hval, show (payload.length + 4) % 32 - 4
      = payload.length - 32 * lastWord payload by omega]
  · intro _
    exact ⟨by rw [hmasked2], by rw [hrec]; exact MacRx.recAligned_ne_idle a⟩
  · rw [hterm, decide_eq_false (by omega)]
  · rw [hterm2, decide_eq_true (by omega)]

include hquiet in
theorem frameEnd : FrameEnd x R t a payload check := by
  by_cases hk : (payload.length + 4) % 32 < 5
  · exact h.frameEnd_short hready henable hframe hquiet hk
  · exact h.frameEnd_long hready henable hframe hk

end Ends

end RxRun

end MlibDevel.FortyGbe
