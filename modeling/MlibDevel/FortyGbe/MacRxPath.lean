import MlibDevel.Lib.TurnMerge
import MlibDevel.FortyGbe.MacRxFrame

/-!
# Two receivers by turns (`SKA_40GBE_MAC/ska_forty_gb_eth.vhd`)

One receiver does not see a start that comes too soon behind the end of a frame.  So there are two,
which take the frames by turns: when the one whose turn it is has begun a frame and the other has
ended its own, it is the turn of the other.  Each writes its words into a buffer, and the buffers
are emptied by turns again.

A buffer (`overlap_buffer`, a generated FIFO of 16 words whose first word falls through) needs some
cycles until a word can be seen at its output; `visible` says in which cycles this is so.
-/

namespace MlibDevel.FortyGbe

open Lib

/-- A word of an overlap buffer: `mac_rx_data`, `mac_rx_data_valid`, `mac_rx_good_frame` and
`mac_rx_bad_frame` -/
structure OverlapWord where
  data : MacWord
  good : Bool
  bad : Bool
  deriving Inhabited

/-- The inputs of the receive path -/
structure RxPathIn where
  xlgmiiRx : MacWord
  xlgmiiRxrst : Bool
  visible : Bool → Bool

/-- The receive path.  The first channel is `false`, and the second `true`. -/
structure RxPath where
  macRx : Bool → MacRx
  macRxChannel : Bool
  overlapBuffer : Bool → List OverlapWord
  currentMacRxState : Bool

namespace RxPath

/-- What the receiver of a channel is given: `mac_rx_enable` is set if it is the turn of the
channel. -/
def macRxIn (s : RxPath) (i : RxPathIn) (b : Bool) : MacRxIn :=
  ⟨i.xlgmiiRx, i.xlgmiiRxrst, s.macRxChannel == b⟩

/-- `mac_rx_busy_out` -/
def macRxBusyOut (s : RxPath) (i : RxPathIn) (b : Bool) : Bool :=
  (s.macRx b).macRxBusy (s.macRxIn i b)

/-- `overlap_buffer_din` -/
def overlapBufferDin (s : RxPath) (b : Bool) : OverlapWord :=
  ⟨(s.macRx b).macRxData, (s.macRx b).macRxGoodFrame, (s.macRx b).macRxBadFrame⟩

/-- `overlap_buffer_full` -/
def overlapBufferFull (s : RxPath) (b : Bool) : Bool := decide (16 ≤ (s.overlapBuffer b).length)

/-- `overlap_buffer_wrreq` -/
def overlapBufferWrreq (s : RxPath) (i : RxPathIn) (b : Bool) : Bool :=
  decide ((s.macRx b).macRxData.c ≠ maskOf 0) && !s.overlapBufferFull b && !i.xlgmiiRxrst

/-- `overlap_buffer_empty` -/
def overlapBufferEmpty (s : RxPath) (i : RxPathIn) (b : Bool) : Bool :=
  !i.visible b || (s.overlapBuffer b).isEmpty

/-- `overlap_buffer_dout` -/
def overlapBufferDout (s : RxPath) (b : Bool) : OverlapWord := (s.overlapBuffer b).headD default

/-- `overlap_buffer_rdreq` -/
def overlapBufferRdreq (s : RxPath) (i : RxPathIn) (b : Bool) : Bool :=
  !s.overlapBufferEmpty i b && s.currentMacRxState == b && !i.xlgmiiRxrst

/-- The last word of a frame -/
def isEndWord (w : OverlapWord) : Bool := decide (w.data.c ≠ maskOf 0) && (w.good || w.bad)

/-- A rising edge of `xlgmii_rxclk`. -/
def edge (s : RxPath) (i : RxPathIn) : RxPath where
  macRx := fun b => (s.macRx b).edge (s.macRxIn i b)
  macRxChannel :=
    if i.xlgmiiRxrst then false
    else if s.macRxBusyOut i s.macRxChannel && !s.macRxBusyOut i (!s.macRxChannel) then
      !s.macRxChannel
    else s.macRxChannel
  overlapBuffer := fun b =>
    if i.xlgmiiRxrst then []
    else (if s.overlapBufferRdreq i b then (s.overlapBuffer b).drop 1 else s.overlapBuffer b)
      ++ if s.overlapBufferWrreq i b then [s.overlapBufferDin b] else []
  currentMacRxState :=
    if i.xlgmiiRxrst then false
    else if !s.overlapBufferEmpty i s.currentMacRxState
        && isEndWord (s.overlapBufferDout s.currentMacRxState) then
      !s.currentMacRxState
    else s.currentMacRxState

/-- `mac_rx_data_valid` -/
def macRxDataValid (s : RxPath) (i : RxPathIn) : Mask :=
  if s.overlapBufferEmpty i s.currentMacRxState then maskOf 0
  else (s.overlapBufferDout s.currentMacRxState).data.c

/-- What is delivered in a cycle, where `mac_rx_data_valid` is not zero -/
def delivered (s : RxPath) (i : RxPathIn) : List RxEvent :=
  let w := s.overlapBufferDout s.currentMacRxState
  if s.macRxDataValid i = maskOf 0 then []
  else (validBytes ⟨w.data.d, s.macRxDataValid i⟩).map .byte ++ (if w.good then [.good] else [])
    ++ if w.bad then [.bad] else []

end RxPath

/-! ## What comes in -/

/-- The frames on the wire from lane `p` on, each with its check sequence.  Between two of them,
behind the terminate byte, there are seven lanes at least.  Outside of frames there is no start
byte. -/
inductive Wire (w : Nat → MacWord) : Nat → List (List (BitVec 8) × BitVec 32) → Prop
  | nil {p : Nat} (h : ∀ q, p ≤ q → wireLane w q ≠ (true, cStartByte)) : Wire w p []
  | frame {p t a : Nat} {payload : List (BitVec 8)} {check : BitVec 32}
      {frames : List (List (BitVec 8) × BitVec 32)}
      (hp : p ≤ 32 * t + 8 * a)
      (hquiet : ∀ q, p ≤ q → q < 32 * t + 8 * a → wireLane w q ≠ (true, cStartByte))
      (h : FrameAt w t a payload check)
      (hgap : ∀ q < 7, wireLane w (32 * t + 8 * a + payload.length + 13 + q) ≠ (true, cStartByte))
      (hrest : Wire w (32 * t + 8 * a + payload.length + 20) frames) :
      Wire w p ((payload, check) :: frames)

namespace Wire

variable {w : Nat → MacWord} {p : Nat} {frames : List (List (BitVec 8) × BitVec 32)}

/-- Behind the start of a frame there is no other in the frame and in the gap. -/
theorem quiet_frame {t a : Nat} {payload : List (BitVec 8)} {check : BitVec 32}
    (h : FrameAt w t a payload check)
    (hgap : ∀ q < 7, wireLane w (32 * t + 8 * a + payload.length + 13 + q) ≠ (true, cStartByte))
    {q : Nat} (hq : 32 * t + 8 * a < q) (hlt : q < 32 * t + 8 * a + payload.length + 20) :
    wireLane w q ≠ (true, cStartByte) := by
  by_cases hin : q < 32 * t + 8 * a + payload.length + 13
  · exact h.no_start hq fun hbehind => absurd hbehind (by omega)
  · have hlane := hgap (q - (32 * t + 8 * a + payload.length + 13)) (by omega)
    rwa [Nat.add_sub_cancel' (Nat.le_of_not_lt hin)] at hlane

theorem long (h : Wire w p frames) : ∀ f ∈ frames, 0 < f.1.length := by
  induction h with
  | nil _ => exact fun f hf => absurd hf List.not_mem_nil
  | frame _ _ hframe _ _ ih =>
    intro f hf
    rcases List.mem_cons.mp hf with rfl | hf
    · exact Nat.lt_of_lt_of_le (by omega) hframe.long
    · exact ih f hf

/-- The first start is in some word, and the second much later. -/
theorem first (h : Wire w p frames) :
    ∃ t, p / 32 ≤ t ∧ ∀ q, p ≤ q → wireLane w q = (true, cStartByte) →
      t ≤ q / 32 ∧ (q / 32 = t ∨ p + 80 ≤ q) := by
  cases h with
  | nil h => exact ⟨p / 32, Nat.le_refl _, fun q hq hstart => absurd hstart (h q hq)⟩
  | @frame _ t a payload _ _ hp hquiet hframe hgap hrest =>
    have hlane := hframe.lane
    have hlong := hframe.long
    refine ⟨t, by omega, fun q hq hstart => ?_⟩
    have hle : 32 * t + 8 * a ≤ q := by
      by_contra hlt
      exact hquiet q hq (by omega) hstart
    refine ⟨by omega, ?_⟩
    by_cases heq : q = 32 * t + 8 * a
    · exact .inl (by omega)
    · refine .inr ?_
      by_contra hlt
      exact quiet_frame hframe hgap (q := q) (by omega) (by omega) hstart

end Wire

end MlibDevel.FortyGbe
