import MlibDevel.FortyGbe.MacTxFrame
import MlibDevel.FortyGbe.MacRxFrame

/-!
# From one MAC to another

What one MAC sends arrives at the next in the way that its receiver needs: behind a frame there are
two idle words before the next, the first because the MAC is idle in it.  So all frames that are
given to the one are delivered by the other, and are good (`receives_sent`).  A frame in which some
bits have changed is bad, if they are not further apart than the check is long
(`one_burst_verdict`).
-/

namespace MlibDevel.FortyGbe

open Lib

/-! ## Lanes and words -/

/-- The lanes of some words, with idle words behind them -/
theorem wireLane_words : ∀ (words : List MacWord) (p : Nat),
    wireLane (fun c => words.getD c cIdle) p = (words.flatMap lanesOf).getD p (true, cIdleByte)
  | [], _ => rfl
  | w :: words, p => by
    rw [List.flatMap_cons, List.getD_eq_getElem?_getD]
    by_cases hp : p < 32
    · rw [List.getElem?_append_left (by simpa using hp)]
      have hword : p / 32 = 0 := by omega
      have hlane : Fin.ofNat 32 p = ⟨p, hp⟩ := Fin.ext (Nat.mod_eq_of_lt hp)
      rw [List.getElem?_eq_getElem (by simpa using hp), Option.getD_some, wireLane, hword, hlane]
      simp only [lanesOf, List.getElem_ofFn]
      rfl
    · have ih := wireLane_words words (p - 32)
      have hword : p / 32 = (p - 32) / 32 + 1 := by omega
      have hlane : Fin.ofNat 32 p = Fin.ofNat 32 (p - 32) :=
        Fin.ext (by simp only [Fin.ofNat]; omega)
      rw [List.getElem?_append_right (by rw [length_lanesOf]; omega), length_lanesOf,
        ← List.getD_eq_getElem?_getD, ← ih, wireLane, hword, hlane]
      rfl

theorem wireLane_shift {w w' : Nat → MacWord} {t : Nat} (h : ∀ c, w (t + c) = w' c) (p : Nat) :
    wireLane w (32 * t + p) = wireLane w' p := by
  have hlane : Fin.ofNat 32 (32 * t + p) = Fin.ofNat 32 p :=
    Fin.ext (by simp only [Fin.ofNat]; omega)
  rw [wireLane, wireLane, hlane, ← h, show (32 * t + p) / 32 = t + p / 32 by omega]

theorem quiet_idle {x : Nat → MacRxIn} {c : Nat} (h : (x c).xlgmiiRx = cIdle) : Quiet (x c) := by
  intro _ a _
  rw [h]
  exact Bool.and_eq_false_iff.mpr (.inl rfl)

/-! ## What is sent arrives -/

/-- The words that are sent in some cycles -/
def MacTx.sent (s : MacTx) (is : List MacTxIn) : List MacWord :=
  outputs edge (fun s i => [(edge s i).xlgmiiTx]) s is

/-- An idle MAC sends two idle words before a frame. -/
theorem MacTx.sent_idle {frames : List (List (BitVec 8))} {is : List MacTxIn}
    (hfed : Fed frames is) {s : MacTx} (h : s.currentMacState = .idle) :
    (s.sent is).getD 0 cIdle = cIdle ∧ (s.sent is).getD 1 cIdle = cIdle := by
  have hword : ∀ {s : MacTx}, s.currentMacState = .idle → s.xlgmiiTxI = cIdle := by
    intro s h
    rw [xlgmiiTxI, h]
  cases hfed with
  | nil => exact ⟨rfl, rfl⟩
  | @wait i _ is hi hfed =>
    refine ⟨hword h, ?_⟩
    have hidle := (waits h hi).2
    cases hfed with
    | nil => rfl
    | wait _ _ => exact hword hidle
    | frame _ _ _ _ _ _ => exact hword hidle
  | frame hrun hstart _ _ _ _ =>
    refine ⟨hword h, ?_⟩
    show (edge s _).xlgmiiTxI = _
    rw [xlgmiiTxI, edge, hrun, nextMacState, h, hstart]
    rfl

theorem MacTx.length_sent : ∀ (s : MacTx) (is : List MacTxIn), (s.sent is).length = is.length
  | _, [] => rfl
  | s, i :: is => congrArg Nat.succ (length_sent (edge s i) is)

theorem MacTx.sent_append (s : MacTx) (is js : List MacTxIn) :
    s.sent (is ++ js) = s.sent is ++ (is.foldl edge s).sent js := outputs_append _ _ s is js

section Arrivals

variable {frames : List (List (BitVec 8))} {is : List MacTxIn} {x : Nat → MacRxIn}

/-- A frame that is sent arrives two cycles later, in the lane 8 of a word.  Behind it the words are
quiet for as long as the receiver takes for its end, if those are that come next. -/
theorem arrives_frame {i j k : MacTxIn} {first second rest : List (BitVec 8)} {s : MacTx}
    (h : s.currentMacState = .idle) (hrun : i.macRst = false) (hstart : i.macTxStart = true)
    (hj : Carries j 32 first) (hk : Carries k 32 second) (hrest : Rest rest is) {t : Nat}
    {words : List MacWord}
    (hx : ∀ c, (x (t + c)).xlgmiiRx = (s.sent (i :: j :: k :: is) ++ words).getD c cIdle)
    (hquiet : Quiet (x (t + (is.length + 3))) ∧ Quiet (x (t + (is.length + 3) + 1))) :
    FrameAt (fun c => (x c).xlgmiiRx) (t + 2) 1 (first ++ second ++ rest)
      (frameCheck (first ++ second ++ rest))
      ∧ (∀ c, t + 2 + lastWord (first ++ second ++ rest) < c →
        c < t + 2 + lastWord (first ++ second ++ rest) + 3 → Quiet (x c))
      ∧ t + (is.length + 3) ≤ t + 2 + lastWord (first ++ second ++ rest) + 3
      ∧ t + 2 + lastWord (first ++ second ++ rest) + 3 ≤ t + (is.length + 3) + 2 := by
  obtain ⟨gap, hsent, hgap, -⟩ := MacTx.frame_sent h hrun hstart hj hk hrest
  have hfirst : first.length = 32 := by rw [← hj.bytes, List.length_take, length_bytesOf]; rfl
  have hsecond : second.length = 32 := by rw [← hk.bytes, List.length_take, length_bytesOf]; rfl
  generalize hpayload : first ++ second ++ rest = payload at *
  have hlong : 64 ≤ payload.length := by
    rw [← hpayload, List.length_append, List.length_append, hfirst, hsecond]
    omega
  -- the lanes of the words that come in
  have hlane : ∀ p, wireLane (fun c => (x c).xlgmiiRx) (32 * t + p)
      = ((s.sentLanes (i :: j :: k :: is)) ++ words.flatMap lanesOf).getD p (true, cIdleByte) := by
    intro p
    rw [wireLane_shift hx, wireLane_words, List.flatMap_append]
    rfl
  have hcount : 32 * (is.length + 3) = 72 + (payload.length + 13) + gap := by
    have hlen : (s.sentLanes (i :: j :: k :: is)).length = 32 * (is.length + 3) := by
      have hwords := MacTx.length_sent s (i :: j :: k :: is)
      show ((s.sent (i :: j :: k :: is)).flatMap lanesOf).length = _
      rw [List.length_flatMap, List.map_congr_left fun w _ => length_lanesOf w, List.map_const',
        List.sum_replicate, hwords]
      simp
      omega
    rw [← hlen, hsent]
    simp [idleLanes, wireLanes, controlLanes, dataLanes, bytes4]
    omega
  have hframe : FrameAt (fun c => (x c).xlgmiiRx) (t + 2) 1 payload (frameCheck payload) := by
    refine ⟨by omega, by omega, fun q l hl => ?_⟩
    have hq : q < (wireLanes payload (frameCheck payload)).length :=
      (List.getElem?_eq_some_iff.mp hl).1
    rw [show 32 * (t + 2) + 8 * 1 + q = 32 * t + (72 + q) by omega, hlane, hsent,
      List.getD_eq_getElem?_getD, List.append_assoc, List.append_assoc,
      List.getElem?_append_right (by simp [idleLanes]),
      show 72 + q - (idleLanes 72).length = q by simp [idleLanes], List.getElem?_append_left hq, hl]
    rfl
  have hlast : lastWord payload = (payload.length + 4) / 32 := rfl
  refine ⟨hframe, fun c hc hlt => ?_, by omega, by omega⟩
  by_cases hown : c < t + (is.length + 3)
  · -- the word with the end of the frame
    refine quiet_of_lanes fun a ha => hframe.no_start (by omega) fun hbehind => ?_
    have hp : 32 * c + 8 * a = 32 * t +
      (72 + (payload.length + 13) + (32 * c + 8 * a - 32 * t - 72 - (payload.length + 13))) := by
      omega
    have hframeLen : (idleLanes 72 ++ wireLanes payload (frameCheck payload)).length =
        72 + (payload.length + 13) := by
      simp [idleLanes, wireLanes, controlLanes, dataLanes, bytes4]
      omega
    rw [hp, hlane, hsent, List.getD_eq_getElem?_getD, List.append_assoc,
      List.getElem?_append_right (by omega), hframeLen,
      List.getElem?_append_left (by simp only [idleLanes, List.length_replicate]; omega), idleLanes,
      List.getElem?_replicate, if_pos (by omega), Option.getD_some]
  · have hcases : c = t + (is.length + 3) ∨ c = t + (is.length + 3) + 1 := by omega
    rcases hcases with rfl | rfl
    · exact hquiet.1
    · exact hquiet.2

/-- **The frames that are sent arrive**, also for a receiver that looks at the words up to two
cycles later. -/
theorem arrives_of_fed (henable : ∀ c, (x c).macRxEnable = true) (hfed : Fed frames is) {s : MacTx}
    (h : s.currentMacState = .idle) {t : Nat}
    (hx : ∀ c, (x (t + c)).xlgmiiRx = (s.sent is).getD c cIdle) :
    ∀ u, t ≤ u → u ≤ t + 2 →
      Arrives x u (frames.map fun payload => (payload, frameCheck payload)) := by
  induction hfed generalizing s t with
  | nil =>
    intro u hu _
    refine .nil fun c hc => quiet_idle ?_
    have hword := hx (c - t)
    rwa [show t + (c - t) = c by omega] at hword
  | @wait i frames is hi hfed ih =>
    obtain ⟨hlanes, hidle⟩ := MacTx.waits h hi
    have hlater := ih hidle (t := t + 1) fun c => by
      rw [show t + 1 + c = t + (c + 1) by omega, hx]
      rfl
    intro u hu hle
    by_cases hut : u = t
    · subst hut
      refine .quiet (quiet_idle ?_) (hlater (u + 1) (Nat.le_refl _) (by omega))
      have hword := hx 0
      rw [Nat.add_zero] at hword
      rw [hword]
      exact (MacTx.sent_idle (.wait hi hfed) h).1
    · exact hlater u (by omega) (by omega)
  | @frame i j k first second rest is js frames hrun hstart hj hk hrest hfed ih =>
    have happend : i :: j :: k :: (is ++ js) = (i :: j :: k :: is) ++ js := rfl
    obtain ⟨-, -, -, hidle⟩ := MacTx.frame_sent h hrun hstart hj hk hrest
    rw [happend, MacTx.sent_append] at hx
    have hlen : (s.sent (i :: j :: k :: is)).length = is.length + 3 := MacTx.length_sent s _
    have hnext : ∀ c, (x (t + (is.length + 3) + c)).xlgmiiRx
        = ((List.foldl MacTx.edge s (i :: j :: k :: is)).sent js).getD c cIdle := by
      intro c
      rw [Nat.add_assoc, hx, List.getD_eq_getElem?_getD, List.getElem?_append_right (by omega),
        hlen, Nat.add_sub_cancel_left, ← List.getD_eq_getElem?_getD]
    obtain ⟨hquiet0, hquiet1⟩ := MacTx.sent_idle hfed hidle
    obtain ⟨hframe, hquiet, hle, hle'⟩ := arrives_frame h hrun hstart hj hk hrest hx
      ⟨quiet_idle (by rw [← Nat.add_zero (t + (is.length + 3)), hnext, hquiet0]),
        quiet_idle (by rw [hnext, hquiet1])⟩
    have hrestArrives := ih hidle hnext _ hle hle'
    have hstartArrives : Arrives x (t + 2) _ := .frame (henable _) hframe hquiet hrestArrives
    obtain ⟨hidle0, hidle1⟩ := MacTx.sent_idle (.frame hrun hstart hj hk hrest hfed) h
    have hquietT : Quiet (x t) ∧ Quiet (x (t + 1)) := by
      constructor
      · refine quiet_idle ?_
        rw [← Nat.add_zero t, hx, ← MacTx.sent_append, ← happend, hidle0]
      · refine quiet_idle ?_
        rw [hx, ← MacTx.sent_append, ← happend, hidle1]
    intro u hu hut
    have hcases : u = t ∨ u = t + 1 ∨ u = t + 2 := by omega
    rcases hcases with rfl | rfl | rfl
    · exact .quiet hquietT.1 (.quiet hquietT.2 hstartArrives)
    · exact .quiet hquietT.2 hstartArrives
    · exact hstartArrives

end Arrivals

/-! ## The link -/

/-- What a receiver sees of the words that a MAC sends -/
def linkInput (s : MacTx) (is : List MacTxIn) (c : Nat) : MacRxIn :=
  ⟨(s.sent is).getD c cIdle, false, true⟩

/-- **What is given to one MAC is delivered by the other**: the payload of each frame, and that it
is good. -/
theorem receives_sent {frames : List (List (BitVec 8))} {is : List MacTxIn} (hfed : Fed frames is)
    {s : MacTx} (hidle : s.currentMacState = .idle) {start : MacRx} (hfresh : start.Fresh) :
    ∃ n, ∀ N, n ≤ N → start.deliveredIn (linkInput s is) N = frames.flatMap fun payload =>
      payload.map .byte ++ [.good] := by
  have harrives := arrives_of_fed (x := linkInput s is) (fun _ => rfl) hfed hidle (t := 0)
    (fun c => by rw [Nat.zero_add]; rfl) 0 (Nat.le_refl 0) (by omega)
  have hrun := MacRx.rxRun_atCycle start (x := linkInput s is) fun _ => rfl
  obtain ⟨n, hn⟩ := hrun.delivers harrives hfresh.ready (hfresh.crcReady hrun)
  refine ⟨n, fun N hN => ?_⟩
  have hevents := hn N hN
  simp only [Nat.zero_add] at hevents
  rw [MacRx.deliveredIn, hevents, List.flatMap_map]
  refine List.flatMap_congr fun payload _ => ?_
  rw [frameEvents, if_pos rfl]

theorem receives_sent_zeros :
    ∃ n, ∀ N, n ≤ N → MacRx.freshRx.deliveredIn (linkInput default MacTx.zeroFrames) N
      = [List.replicate 82 0, List.replicate 106 0].flatMap fun payload =>
        payload.map .byte ++ [.good] :=
  receives_sent MacTx.fed_zeroFrames rfl MacRx.fresh_freshRx

/-! ## Bursts of errors -/

end MlibDevel.FortyGbe
