import MlibDevel.FortyGbe.MacRxPath

/-!
# Which receiver takes which frame

The frames on the wire arrive at the two receivers by turns (`RxPath.turns`).  The invariant is
about the time of the next start: the receiver whose turn it is waits for it, and the other has
ended its frame when that start can come at the latest, so that the turn is handed on before the
start after it.
-/

namespace MlibDevel.FortyGbe

open Lib

/-- A run of the receive path without a reset -/
structure PathRun (x : Nat → RxPathIn) (P : Nat → RxPath) : Prop where
  run : ∀ c, (x c).xlgmiiRxrst = false
  step : ∀ c, P (c + 1) = (P c).edge (x c)

namespace PathRun

variable {x : Nat → RxPathIn} {P : Nat → RxPath}

/-- What the receiver of a channel is given -/
def channelIn (x : Nat → RxPathIn) (P : Nat → RxPath) (b : Bool) (c : Nat) : MacRxIn :=
  (P c).macRxIn (x c) b

section Steps

variable (h : PathRun x P)

include h

theorem rxRun (b : Bool) : RxRun (channelIn x P b) fun c => (P c).macRx b where
  run := fun c => h.run c
  step := fun c => by rw [h.step]; rfl

theorem channel (c : Nat) : (P (c + 1)).macRxChannel
    = if (P c).macRxBusyOut (x c) (P c).macRxChannel && !(P c).macRxBusyOut (x c)
      (!(P c).macRxChannel)
      then !(P c).macRxChannel else (P c).macRxChannel := by
  rw [h.step, RxPath.edge, h.run]
  rfl

end Steps

/-- Where there is no start on the wire, or it is not the turn of the channel, no frame begins. -/
theorem quiet_channel {b : Bool} {c : Nat}
    (hquiet : (P c).macRxChannel = b → ∀ q,
      32 * c ≤ q → q < 32 * c + 32 → wireLane (fun c => (x c).xlgmiiRx) q ≠ (true, cStartByte)) :
    Quiet (channelIn x P b c) := by
  intro henable a ha
  have hb : (P c).macRxChannel = b := eq_of_beq henable
  exact quiet_of_lanes (x := channelIn x P b) (c := c)
    (fun a ha => hquiet hb (32 * c + 8 * a) (by omega) (by omega))
    henable a ha

theorem channel_enable {b : Bool} {c : Nat} (hchannel : (P c).macRxChannel = b) :
    (channelIn x P b c).macRxEnable = true := by
  rw [channelIn, RxPath.macRxIn, hchannel]
  exact beq_self_eq_true b

theorem not_busy_of_idle {b : Bool} {c : Nat} (hidle : ((P c).macRx b).currentMacState = .idle) :
    (P c).macRxBusyOut (x c) b = false := by
  rw [RxPath.macRxBusyOut, MacRx.macRxBusy, hidle]
  rfl

/-- A receiver that waits goes on waiting while no frame begins. -/
theorem ready_until (h : PathRun x P) {b : Bool} {c : Nat} (hready : ((P c).macRx b).Ready) :
    ∀ d, (∀ e < d, Quiet (channelIn x P b (c + e))) → ((P (c + d)).macRx b).Ready
  | 0, _ => hready
  | d + 1, hquiet => (h.rxRun b).quiet_ready (h.ready_until hready d fun e he => hquiet e
    (by omega)) (hquiet d (by omega))

/-- The channel stays while the receiver whose turn it is has no frame. -/
theorem channel_until (h : PathRun x P) {b : Bool} {c : Nat} (hchannel : (P c).macRxChannel = b) :
    ∀ d, (∀ e < d, (P (c + e)).macRxBusyOut (x (c + e)) b = false) → (P (c + d)).macRxChannel = b
  | 0, _ => hchannel
  | d + 1, hbusy => by
    have ih := h.channel_until hchannel d fun e he => hbusy e (by omega)
    show (P (c + d + 1)).macRxChannel = b
    rw [h.channel, ih, hbusy d (by omega)]
    rfl

section Frames

variable {b : Bool} {t a : Nat} {payload : List (BitVec 8)} {check : BitVec 32} (h : PathRun x P)
  (hready : ((P t).macRx b).Ready) (hchannel : (P t).macRxChannel = b)
  (hframe : FrameAt (fun c => (x c).xlgmiiRx) t a payload check)

include h hready hchannel hframe

theorem frame_recording :
    ∀ j ≤ lastWord payload, ((P (t + 1 + j)).macRx b).currentMacState = recAligned a :=
  fun j hj => ((h.rxRun b).recording hready (channel_enable hchannel) hframe j hj).1

/-- While a frame is received the receiver is busy: this is so for two cycles at least. -/
theorem frame_busy {j : Nat} (hj : j < lastWord payload) :
    (P (t + 1 + j)).macRxBusyOut (x (t + 1 + j)) b = true := by
  have henable := channel_enable (x := x) hchannel
  have hrec := (h.rxRun b).recording hready henable hframe j (by omega)
  have hterm : ((P (t + 1 + j)).macRx b).terminateByteFound
    ((P (t + 1 + j)).macRxIn (x (t + 1 + j)) b) = false :=
    ((h.rxRun b).masks_none (t + 1 + j) hrec.2.1
      ((h.rxRun b).recording_none hready henable hframe hj)).2.2.2.2
  have hne : ((P (t + 1 + j)).macRx b).currentMacState ≠ .idle := by
    rw [hrec.1]
    exact MacRx.recAligned_ne_idle a
  rw [RxPath.macRxBusyOut, MacRx.macRxBusy, hterm]
  simp [hne]

variable (hquiet : ∀ c, t + lastWord payload < c → c < t + lastWord payload + 3 →
  Quiet (channelIn x P b c))

include hquiet

/-- From the cycle on in which the end is found the receiver is not busy. -/
theorem frame_not_busy {c : Nat} (hc : t + 1 + chunkCount 32 payload.length ≤ c)
    (hle : c ≤ t + lastWord payload + 3) :
    (P c).macRxBusyOut (x c) b = false := by
  have henable := channel_enable (x := x) hchannel
  have hend := (h.rxRun b).frameEnd hready henable hframe hquiet
  have hlong := hframe.long
  have hlast : lastWord payload = (payload.length + 4) / 32 := rfl
  rw [chunkCount] at hc
  have hcases : c = t + lastWord payload + 1 ∨ c = t + lastWord payload + 2 ∨ c
    = t + lastWord payload + 3 := by omega
  rcases hcases with rfl | rfl | rfl
  · have hfound : ((P (t + lastWord payload + 1)).macRx b).terminateByteFound
        ((P (t + lastWord payload + 1)).macRxIn (x (t + lastWord payload + 1)) b) = true :=
      hend.found.trans (decide_eq_true (by omega))
    rw [RxPath.macRxBusyOut, MacRx.macRxBusy, hfound]
    exact Bool.and_false _
  · by_cases hlong' : 32 * lastWord payload < payload.length
    · have hfound : ((P (t + lastWord payload + 2)).macRx b).terminateByteFound
          ((P (t + lastWord payload + 2)).macRxIn (x (t + lastWord payload + 2)) b) = true :=
        hend.foundNext.trans (decide_eq_true hlong')
      rw [RxPath.macRxBusyOut, MacRx.macRxBusy, hfound]
      exact Bool.and_false _
    · -- the end was found in the cycle before
      have hfound : ((P (t + lastWord payload + 1)).macRx b).terminateByteFound
        (channelIn x P b (t + lastWord payload + 1))
          = true := hend.found.trans (decide_eq_true (by omega))
      have hstate := h.frame_recording hready hchannel hframe (lastWord payload) (Nat.le_refl _)
      rw [show t + 1 + lastWord payload = t + lastWord payload + 1 by omega] at hstate
      refine not_busy_of_idle ?_
      show ((P (t + lastWord payload + 1 + 1)).macRx b).currentMacState = _
      rw [(h.rxRun b).state (t + lastWord payload + 1), MacRx.nextMacState_recording hstate, hfound]
      rfl
  · exact not_busy_of_idle hend.ready.idle

end Frames

/-- What is known of the receivers before the frames on the wire from lane `p` on.  It is the turn
of `b` from cycle `c` on, and `b` waits.  The other has found the end of its frame in cycle `e`, and
waits from cycle `v` on. -/
structure Turn (x : Nat → RxPathIn) (P : Nat → RxPath) (p : Nat) (b : Bool) (c e v : Nat) :
    Prop where
  channel : (P c).macRxChannel = b
  ready : ((P c).macRx b).Ready
  other : ((P v).macRx (!b)).Ready
  notBusy : ∀ d, e ≤ d → d ≤ v → (P d).macRxBusyOut (x d) (!b) = false
  clear : ∀ q, 32 * c ≤ q → q < p → wireLane (fun c => (x c).xlgmiiRx) q ≠ (true, cStartByte)
  before : c ≤ p / 32 ∧ c ≤ v ∧ e ≤ v
  soon : e ≤ p / 32 + 2 ∧ e + 1 ≤ (p + 80) / 32 ∧ v ≤ (p + 80) / 32

section Turns

variable {p : Nat} {b : Bool} {c e v : Nat}

/-- Until a frame begins the receiver whose turn it is waits, and it stays its turn. -/
theorem Turn.wait (h : PathRun x P) (hturn : Turn x P p b c e v) {d : Nat} (hc : c ≤ d)
    (hno : ∀ q, p ≤ q → q < 32 * d → wireLane (fun c => (x c).xlgmiiRx) q ≠ (true, cStartByte)) :
    ((P d).macRx b).Ready ∧ (P d).macRxChannel = b ∧ ∀ f, c ≤ f → f < d → Quiet
      (channelIn x P b f) := by
  have hquiet : ∀ f, c ≤ f → f < d → Quiet (channelIn x P b f) := by
    intro f hf hfd
    refine quiet_channel fun _ q hq hlt => ?_
    by_cases hp : p ≤ q
    · exact hno q hp (by omega)
    · exact hturn.clear q (by omega) (by omega)
  obtain ⟨n, rfl⟩ := Nat.exists_eq_add_of_le hc
  have hready : ∀ m ≤ n, ((P (c + m)).macRx b).Ready :=
    fun m hm => h.ready_until hturn.ready m fun e he => hquiet _ (by omega) (by omega)
  exact ⟨hready n (Nat.le_refl n),
    h.channel_until hturn.channel n fun e he => not_busy_of_idle (hready e (by omega)).idle, hquiet⟩

/-- The other receiver waits until its turn comes, and is not busy from the end of its frame on. -/
theorem Turn.wait_other (h : PathRun x P) (hturn : Turn x P p b c e v) {t d : Nat}
    (ht : (P t).macRxChannel = b)
    (hno : ∀ q, p ≤ q → q < 32 * d →
      wireLane (fun c => (x c).xlgmiiRx) q = (true, cStartByte) → q / 32 = t) :
    (∀ f, v ≤ f → f ≤ d → ((P f).macRx (!b)).Ready)
      ∧ (∀ f, v ≤ f → f < d → Quiet (channelIn x P (!b) f))
      ∧ ∀ f, e ≤ f → f ≤ d → (P f).macRxBusyOut (x f) (!b) = false := by
  have hbefore := hturn.before
  have hquiet : ∀ f, v ≤ f → f < d → Quiet (channelIn x P (!b) f) := by
    intro f hf hfd
    refine quiet_channel fun hchannel q hq hlt hstart => ?_
    by_cases hp : p ≤ q
    · have heq : f = t := by rw [← hno q hp (by omega) hstart]; omega
      rw [heq, ht] at hchannel
      cases b <;> exact absurd hchannel (by decide)
    · exact hturn.clear q (by omega) (by omega) hstart
  have hready : ∀ f, v ≤ f → f ≤ d → ((P f).macRx (!b)).Ready := by
    intro f hf hfd
    obtain ⟨n, rfl⟩ := Nat.exists_eq_add_of_le hf
    exact h.ready_until hturn.other n fun e he => hquiet _ (by omega) (by omega)
  refine ⟨hready, hquiet, fun f hf hfd => ?_⟩
  by_cases hv : f ≤ v
  · exact hturn.notBusy f hf hv
  · exact not_busy_of_idle (hready f (by omega) hfd).idle

/-- The turn is handed on in the second cycle of a frame, or in the third. -/
theorem Turn.handed_on (h : PathRun x P) (hturn : Turn x P p b c e v) {t a : Nat}
    {payload : List (BitVec 8)} {check : BitVec 32} (hp : p ≤ 32 * t + 8 * a)
    (hready : ((P t).macRx b).Ready) (hchannel : (P t).macRxChannel = b)
    (hframe : FrameAt (fun c => (x c).xlgmiiRx) t a payload check)
    (hother : ∀ f, e ≤ f → f ≤ t + 2 → (P f).macRxBusyOut (x f) (!b) = false) :
    ∃ s, t + 2 ≤ s ∧ s ≤ t + 3 ∧ e ≤ s ∧ s ≤ (32 * t + 8 * a + payload.length + 20) / 32
      ∧ (P s).macRxChannel = !b := by
  have hlong := hframe.long
  have hlane := hframe.lane
  have hsoon := hturn.soon
  have hlast : lastWord payload = (payload.length + 4) / 32 := rfl
  have hstay : (P (t + 1)).macRxChannel = b := by
    rw [h.channel, hchannel, not_busy_of_idle hready.idle]
    rfl
  have hbusy1 : (P (t + 1)).macRxBusyOut (x (t + 1)) b = true :=
    h.frame_busy hready hchannel hframe (j := 0) (by omega)
  have hbusy2 : (P (t + 2)).macRxBusyOut (x (t + 2)) b = true :=
    h.frame_busy hready hchannel hframe (j := 1) (by omega)
  cases hnow : (P (t + 1)).macRxBusyOut (x (t + 1)) (!b) with
  | false =>
    refine ⟨t + 2, by omega, by omega, by omega, by omega, ?_⟩
    rw [h.channel, hstay, hbusy1, hnow]
    rfl
  | true =>
    have he : e = t + 2 := by
      by_contra hne
      have hfalse := hother (t + 1) (by omega) (by omega)
      rw [hnow] at hfalse
      exact Bool.false_ne_true hfalse.symm
    have hstay2 : (P (t + 2)).macRxChannel = b := by
      rw [h.channel, hstay, hbusy1, hnow]
      rfl
    refine ⟨t + 3, by omega, by omega, by omega, by omega, ?_⟩
    rw [h.channel, hstay2, hbusy2, hother (t + 2) (by omega) (by omega)]
    rfl

/-- **A frame is taken by the receiver whose turn it is**, and the other waits for the next. -/
theorem Turn.frame (h : PathRun x P) (hturn : Turn x P p b c e v) {t a : Nat}
    {payload : List (BitVec 8)} {check : BitVec 32} {frames : List (List (BitVec 8) × BitVec 32)}
    (hp : p ≤ 32 * t + 8 * a)
    (hquiet : ∀ q, p ≤ q → q < 32 * t + 8 * a →
      wireLane (fun c => (x c).xlgmiiRx) q ≠ (true, cStartByte))
    (hframe : FrameAt (fun c => (x c).xlgmiiRx) t a payload check)
    (hgap : ∀ q < 7, wireLane (fun c => (x c).xlgmiiRx)
      (32 * t + 8 * a + payload.length + 13 + q) ≠ (true, cStartByte))
    (hrest : Wire (fun c => (x c).xlgmiiRx) (32 * t + 8 * a + payload.length + 20) frames) :
    c ≤ t ∧ (P t).macRxChannel = b ∧ (∀ f, c ≤ f → f < t → Quiet (channelIn x P b f))
      ∧ (∀ f, t + lastWord payload < f → f < t + lastWord payload + 3 → Quiet (channelIn x P b f))
      ∧ ∃ c', v ≤ c' ∧ (∀ f, v ≤ f → f < c' → Quiet (channelIn x P (!b) f))
        ∧ Turn x P (32 * t + 8 * a + payload.length + 20) (!b) c'
          (t + 1 + chunkCount 32 payload.length)
          (t + lastWord payload + 3) := by
  have hlong := hframe.long
  have hlane := hframe.lane
  have hsoon := hturn.soon
  have hbefore := hturn.before
  have hlast : lastWord payload = (payload.length + 4) / 32 := rfl
  have hwords : chunkCount 32 payload.length = (payload.length + 31) / 32 := rfl
  obtain ⟨hready, hchannel, hquietB⟩ := hturn.wait h (d := t) (by omega) fun q hq hlt =>
    hquiet q hq (by omega)
  -- no other frame begins before cycle `tn`
  obtain ⟨tn, htn, hnext⟩ := hrest.first
  have hno : ∀ q, p ≤ q → q < 32 * tn → wireLane (fun c => (x c).xlgmiiRx) q
    = (true, cStartByte) → q / 32 = t := by
    intro q hq hlt hstart
    by_cases hbeforeStart : q < 32 * t + 8 * a
    · exact absurd hstart (hquiet q hq hbeforeStart)
    · by_cases hin : q < 32 * t + 8 * a + payload.length + 20
      · by_cases heq : q = 32 * t + 8 * a
        · omega
        · exact absurd hstart (Wire.quiet_frame hframe hgap (by omega) hin)
      · have hle := (hnext q (by omega) hstart).1
        omega
  obtain ⟨hreadyOther, hquietOther, hnotBusy⟩ := hturn.wait_other h hchannel hno
  obtain ⟨s, hs, hs', hes, hsn, hswitch⟩ := hturn.handed_on h hp hready hchannel hframe
    fun f hf hle => hnotBusy f hf (by omega)
  -- from cycle `s` on it is the turn of the other, until the next frame begins
  have hlater : ∀ f, s ≤ f → f ≤ tn → (P f).macRxChannel = !b := by
    intro f hf hle
    obtain ⟨n, rfl⟩ := Nat.exists_eq_add_of_le hf
    exact h.channel_until hswitch n fun g hg => hnotBusy _ (by omega) (by omega)
  have hquietEnd : ∀ f, t + lastWord payload < f → f < t + lastWord payload + 3 → Quiet
    (channelIn x P b f) := by
    intro f hf hlt
    refine quiet_channel fun hb q hq hqlt hstart => ?_
    by_cases hin : q < 32 * t + 8 * a + payload.length + 20
    · exact Wire.quiet_frame hframe hgap (by omega) hin hstart
    · obtain ⟨-, heq | hfar⟩ := hnext q (by omega) hstart
      · have hturnOther := hlater f (by omega) (by omega)
        rw [hb] at hturnOther
        cases b <;> exact absurd hturnOther (by decide)
      · omega
  have hend := (h.rxRun b).frameEnd hready (channel_enable hchannel) hframe hquietEnd
  refine ⟨by omega, hchannel, hquietB, hquietEnd, max s v, by omega, fun f hf hlt =>
    hquietOther f hf (by omega), ?_⟩
  refine ⟨hlater _ (by omega) (by omega), hreadyOther _ (by omega) (by omega), ?_, fun d hd hle =>
    ?_, fun q hq hlt => ?_,
    by omega, by omega⟩
  · rw [Bool.not_not]
    exact hend.ready
  · rw [Bool.not_not]
    exact h.frame_not_busy hready hchannel hframe hquietEnd hd hle
  · exact Wire.quiet_frame hframe hgap (by omega) hlt

end Turns

end PathRun

end MlibDevel.FortyGbe
