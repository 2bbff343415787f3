import MlibDevel.Lib.Chunks
import MlibDevel.FortyGbe.MacRxRun

/-!
# The frames that the receiver delivers

In cycle `t + 8` the first word of the frame comes out that began in cycle `t`.  With the last it is
known whether the check was right.  Frames are delivered so one after the other (`RxRun.delivers`),
as long as those in `Arrives` are what comes in: the receiver sees no start for three cycles from
the terminate byte on.
-/

namespace MlibDevel.FortyGbe

open Lib

/-! ## What is delivered -/

/-- What a receiver of frames sees -/
inductive RxEvent
  | byte (b : BitVec 8)
  | good
  | bad
  deriving DecidableEq, Repr

/-- The valid bytes of a word -/
def validBytes (w : MacWord) : List (BitVec 8) := ((List.finRange 32).filter w.c).map w.d

/-- What is delivered in a cycle -/
def MacRx.delivered (s : MacRx) : List RxEvent :=
  (validBytes s.macRxData).map .byte ++ (if s.macRxGoodFrame then [.good] else [])
    ++ (if s.macRxBadFrame then [.bad] else [])

/-- What is delivered of a frame in its cycle `c`: some bytes, and with the last of them the verdict
on the check -/
def wordEvent (payload : List (BitVec 8)) (check : BitVec 32) (c : Nat) : List RxEvent :=
  ((payload.map .byte).drop (32 * c)).take 32
    ++ if c + 1 = chunkCount 32 payload.length then
      [if check = frameCheck payload then .good else .bad] else []

/-- A frame with a check sequence, word by word -/
def wordEvents (payload : List (BitVec 8)) (check : BitVec 32) : List (List RxEvent) :=
  (List.range (chunkCount 32 payload.length)).map (wordEvent payload check)

/-- A frame with a check sequence, and the verdict on it -/
def frameEvents (payload : List (BitVec 8)) (check : BitVec 32) : List RxEvent :=
  payload.map .byte ++ [if check = frameCheck payload then .good else .bad]

/-- The words in which something is delivered -/
def wordsOf (events : List RxEvent) : List (List RxEvent) := if events = [] then [] else [events]

theorem flatten_wordsOf (events : List RxEvent) : (wordsOf events).flatten = events := by
  rw [wordsOf]
  split_ifs with h
  · rw [h]
    rfl
  · simp

theorem validBytes_maskOf (d : Fin 32 → BitVec 8) (n : Nat) :
    validBytes ⟨d, maskOf n⟩ = (bytesOf d).take n := by
  have hmask : ∀ n ≤ 32, (List.finRange 32).filter (maskOf n) = (List.finRange 32).take n := by
    decide
  have hbytes : bytesOf d = (List.finRange 32).map d := List.ofFn_eq_map
  rw [validBytes, hbytes]
  by_cases hn : n ≤ 32
  · rw [hmask n hn, List.map_take]
  · rw [maskOf_of_le (by omega), hmask 32 (Nat.le_refl _), List.map_take, List.take_of_length_le
      (by simp),
      List.take_of_length_le (by simp; omega)]

theorem wordEvent_ne_nil {payload : List (BitVec 8)} {c : Nat}
    (h : c < chunkCount 32 payload.length) (check : BitVec 32) :
    wordEvent payload check c ≠ [] := by
  intro hnil
  have hlen := congrArg List.length (List.append_eq_nil_iff.mp hnil).1
  rw [chunkCount] at h
  simp at hlen
  omega

theorem wordEvent_eq_nil {payload : List (BitVec 8)} {c : Nat}
    (h : chunkCount 32 payload.length ≤ c) (check : BitVec 32) :
    wordEvent payload check c = [] := by
  rw [wordEvent, if_neg (by omega), List.append_nil, List.drop_of_length_le, List.take_nil]
  rw [List.length_map]
  rw [chunkCount] at h
  omega

/-- The words of a frame are the frame. -/
theorem flatten_wordEvents {payload : List (BitVec 8)} (hpos : 0 < payload.length)
    (check : BitVec 32) :
    (wordEvents payload check).flatten = frameEvents payload check := by
  obtain ⟨n, hn⟩ : ∃ n, chunkCount 32 payload.length = n + 1 :=
    ⟨(payload.length - 1) / 32, by rw [chunkCount]; omega⟩
  have hbytes : ∀ c ∈ List.range n, wordEvent payload check c
    = ((payload.map RxEvent.byte).drop (c * 32)).take 32 := by
    intro c hc
    have hlt := List.mem_range.mp hc
    rw [wordEvent, hn, if_neg (by omega), List.append_nil, Nat.mul_comm]
  have hlast : ((payload.map RxEvent.byte).drop (32 * n)).take 32
      = (payload.map RxEvent.byte).drop (n * 32) := by
    rw [Nat.mul_comm, List.take_of_length_le]
    rw [chunkCount] at hn
    rw [List.length_drop, List.length_map]
    omega
  rw [wordEvents, hn, List.range_succ, List.map_append, List.flatten_append,
    List.map_congr_left hbytes, flatten_range_take_drop, List.map_singleton, List.flatten_singleton,
    wordEvent, hn, if_pos rfl, hlast, ← List.append_assoc, List.take_append_drop, frameEvents]

/-! ## What comes in -/

/--
The frames that come in from cycle `t` on, each with its check sequence.  The receiver is enabled
when a frame begins.  Counted from the payload on the terminate byte is in word `lastWord`, and the
two words behind that one are quiet, as the receiver needs them for the end.  Where no frame begins
there may be anything else.
-/
inductive Arrives (x : Nat → MacRxIn) : Nat → List (List (BitVec 8) × BitVec 32) → Prop
  | nil {t : Nat} (h : ∀ c, t ≤ c → Quiet (x c)) : Arrives x t []
  | quiet {t : Nat} {frames : List (List (BitVec 8) × BitVec 32)} (h : Quiet (x t))
      (hrest : Arrives x (t + 1) frames) : Arrives x t frames
  | frame {t a : Nat} {payload : List (BitVec 8)} {check : BitVec 32}
      {frames : List (List (BitVec 8) × BitVec 32)}
      (henable : (x t).macRxEnable = true) (h : FrameAt (fun c => (x c).xlgmiiRx) t a payload check)
      (hquiet : ∀ c, t + lastWord payload < c → c < t + lastWord payload + 3 → Quiet (x c))
      (hrest : Arrives x (t + lastWord payload + 3) frames) :
      Arrives x t ((payload, check) :: frames)

theorem Arrives.long {x : Nat → MacRxIn} {t : Nat} {frames : List (List (BitVec 8) × BitVec 32)}
    (h : Arrives x t frames) : ∀ f ∈ frames, 0 < f.1.length := by
  induction h with
  | nil _ => exact fun f hf => absurd hf List.not_mem_nil
  | quiet _ _ ih => exact ih
  | frame _ hframe _ _ ih =>
    intro f hf
    rcases List.mem_cons.mp hf with rfl | hf
    · exact Nat.lt_of_lt_of_le (by omega) hframe.long
    · exact ih f hf

namespace RxRun

variable {x : Nat → MacRxIn} {R : Nat → MacRx}

/-- The module for the check can take a frame. -/
def CrcReady (s : MacRx) : Prop :=
  s.crc.currentCrcState = .idle ∨ s.crc.currentCrcState = .trailPart3

/-- What is delivered in a cycle, by what was in the receiver before. -/
theorem delivered_eq (h : RxRun x R) (c : Nat) {d : Fin 32 → BitVec 8} {n : Nat}
    (hmasked : (R (c + 3)).xlgmiiRxCrcMasked.c = maskOf n)
    (hd : 0 < n → (R (c + 3)).xlgmiiRxCrcMasked.d = d ∧ (R (c + 2)).currentMacState ≠ .idle) :
    (R (c + 8)).delivered = ((bytesOf d).take n).map .byte
      ++ if (R (c + 2)).terminateByteFound (x (c + 2))
        then [if (R (c + 8)).crc.crcOut = (R (c + 5)).receivedCrc then .good else .bad]
        else [] := by
  have hbytes : validBytes (R (c + 8)).macRxData = (bytesOf d).take n := by
    rw [h.macRxData (c + 3), hmasked, h.stateZ1 (c + 2)]
    by_cases hn : 0 < n
    · rw [(hd hn).1, if_pos (hd hn).2, validBytes_maskOf]
    · rw [show n = 0 by omega, ite_self, validBytes_maskOf]
      rfl
  rw [MacRx.delivered, hbytes, MacRx.macRxGoodFrame, MacRx.macRxBadFrame, h.terminateZ6 (c + 2),
    h.receivedZ3 (c + 5)]
  cases (R (c + 2)).terminateByteFound (x (c + 2)) with
  | false => simp
  | true => by_cases hcrc : (R (c + 8)).crc.crcOut = (R (c + 5)).receivedCrc <;> simp [hcrc]

section Frames

variable {t a : Nat} {payload : List (BitVec 8)} {check : BitVec 32} (h : RxRun x R)
  (hready : (R t).Ready) (henable : (x t).macRxEnable = true)
  (hframe : FrameAt (fun c => (x c).xlgmiiRx) t a payload check)
  (hquiet : ∀ c, t + lastWord payload < c → c < t + lastWord payload + 3 → Quiet (x c))

include h hready henable hframe hquiet

/-- The words of a frame, as the check is calculated of them -/
theorem masked : ∀ j ≤ lastWord payload,
    (R (t + 3 + j)).xlgmiiRxCrcMasked.c = maskOf (payload.length - 32 * j)
      ∧ (32 * j < payload.length → (R (t + 3 + j)).xlgmiiRxCrcMasked.d
          = (wordAt (fun c => (x c).xlgmiiRx) (32 * (t + j) + 8 * a + 8)).d
        ∧ (R (t + 2 + j)).currentMacState ≠ .idle) := by
  intro j hj
  have hend := h.frameEnd hready henable hframe hquiet
  have hmul : 32 * lastWord payload ≤ payload.length + 4 := by rw [lastWord]; omega
  have hrec : j < lastWord payload → (R (t + 2 + j)).currentMacState ≠ .idle := by
    intro hlt
    rw [show t + 2 + j = t + 1 + (j + 1) by omega,
      (h.recording hready henable hframe (j + 1) (by omega)).1]
    exact MacRx.recAligned_ne_idle a
  rcases Nat.lt_trichotomy (j + 1) (lastWord payload) with hlt | heq | hgt
  · have hmasked := h.masked_whole hready henable hframe hlt
    rw [hmasked]
    exact ⟨(maskOf_of_le (by omega)).symm, fun _ => ⟨rfl, hrec (by omega)⟩⟩
  · have hmasked := hend.before j heq.symm
    rw [show t + 3 + j = t + lastWord payload + 2 by omega, hmasked]
    exact ⟨rfl, fun _ => ⟨rfl, hrec (by omega)⟩⟩
  · have hj' : j = lastWord payload := by omega
    subst hj'
    rw [show t + 3 + lastWord payload = t + lastWord payload + 3 by omega,
      show t + 2 + lastWord payload = t + lastWord payload + 2 by omega]
    exact ⟨hend.last, hend.rest⟩

variable (hnone : terminateLane
  ((R (t + lastWord payload + 4)).xlgmiiRxAligned (x (t + lastWord payload + 4))) = none)

include hnone

/-- The last word of a frame is known, and then no other is. -/
theorem terminate_found :
    ∀ c < lastWord payload + 3, (R (t + c + 2)).terminateByteFound (x (t + c + 2))
      = decide (c + 1 = chunkCount 32 payload.length) := by
  intro c hc
  have hend := h.frameEnd hready henable hframe hquiet
  have hmul : 32 * lastWord payload ≤ payload.length + 4
    ∧ payload.length + 4 < 32 * lastWord payload + 32 := by
    rw [lastWord]
    omega
  obtain ⟨-, -, hterm, hterm', -⟩ := h.between (t + lastWord payload + 3) hend.ready hnone
  have hlong := hframe.long
  rw [chunkCount]
  have hcases : c + 1 < lastWord payload ∨ c + 1 = lastWord payload ∨ c = lastWord payload
      ∨ c = lastWord payload + 1 ∨ c = lastWord payload + 2 := by omega
  rcases hcases with hlt | heq | heq | heq | heq
  · have hrec := (h.recording hready henable hframe (c + 1) (by omega)).2.1
    have hmasks := h.masks_none (t + 1 + (c + 1)) hrec (h.recording_none hready henable hframe hlt)
    rw [show t + c + 2 = t + 1 + (c + 1) by omega, hmasks.2.2.2.2, decide_eq_false (by omega)]
  · rw [show t + c + 2 = t + lastWord payload + 1 by omega, hend.found]
    congr 1
    rw [eq_iff_iff]
    omega
  · rw [show t + c + 2 = t + lastWord payload + 2 by omega, hend.foundNext]
    congr 1
    rw [eq_iff_iff]
    omega
  · rw [show t + c + 2 = t + lastWord payload + 3 by omega, hterm, decide_eq_false (by omega)]
  · rw [show t + c + 2 = t + lastWord payload + 3 + 1 by omega, hterm', decide_eq_false (by omega)]

variable (hcrc : CrcReady (R (t + 3)))

include hcrc

/-- **The check of a frame** is there when its last word comes out, and the module is ready for the
next. -/
theorem frame_crc : Took (R (t + chunkCount 32 payload.length + 7)).crc.finalCrc payload
    ∧ CrcReady (R (t + lastWord payload + 3 + 3)) := by
  have hlong := hframe.long
  have hmasked := h.masked hready henable hframe hquiet
  have hend := h.frameEnd hready henable hframe hquiet
  have hwords : chunkCount 32 payload.length = (payload.length + 31) / 32 := rfl
  have hlast : lastWord payload = (payload.length + 4) / 32 := rfl
  have hreset : (R (t + 3)).crcReset = true := by
    rw [h.crcReset, started hready henable hframe]
  have hnot : ∀ j, 1 ≤ j → j < payload.length / 32 → (R (t + 3 + j)).crcReset = false := by
    intro j hj hjq
    have hstate := (h.recording hready henable hframe (j - 1) (by omega)).1
    rw [show t + 1 + (j - 1) = t + j by omega] at hstate
    rw [show t + 3 + j = t + j + 3 by omega, h.crcReset, MacRx.nextMacState_recording hstate]
  have hwhole : ∀ j < payload.length / 32, (R (t + 3 + j)).xlgmiiRxCrcMasked.c = maskOf 32 := by
    intro j hj
    rw [(hmasked j (by omega)).1, maskOf_of_le (by omega)]
  have hval : (R (t + 3 + payload.length / 32)).xlgmiiRxCrcMasked.c
      = maskOf (payload.length % 32) := by
    rw [(hmasked _ (by omega)).1]
    congr 1
    omega
  obtain ⟨-, -, hstate3, hstate4, htook⟩ := h.crcRun.frame_crc (u := t + 3)
    (q := payload.length / 32) (by omega) hcrc hreset hnot hwhole hval (Nat.mod_lt _ (by omega))
  -- the words of the check are the payload
  have hpayload :
      ((List.range (payload.length / 32)).flatMap fun j =>
          bytesOf (R (t + 3 + j)).xlgmiiRxCrcMasked.d)
        ++ (bytesOf (R (t + 3 + payload.length / 32)).xlgmiiRxCrcMasked.d).take
          (payload.length % 32)
        = payload := by
    have hword : ∀ j ∈ List.range (payload.length / 32), bytesOf (R (t + 3 + j)).xlgmiiRxCrcMasked.d
        = (payload.drop (j * 32)).take 32 := by
      intro j hj
      have hj' := List.mem_range.mp hj
      rw [((hmasked j (by omega)).2 (by omega)).1, Nat.mul_comm j 32,
        ← hframe.bytesOf_word j (Nat.le_refl 32) (by omega), List.take_of_length_le (by simp)]
    have hrest :
        (bytesOf (R (t + 3 + payload.length / 32)).xlgmiiRxCrcMasked.d).take (payload.length % 32)
        = payload.drop (payload.length / 32 * 32) := by
      by_cases hzero : payload.length % 32 = 0
      · rw [hzero, List.take_zero, List.drop_of_length_le (by omega)]
      · rw [((hmasked _ (by omega)).2 (by omega)).1, hframe.bytesOf_word _ (by omega) (by omega),
          Nat.mul_comm 32, List.take_of_length_le (by rw [List.length_drop]; omega)]
    rw [List.flatMap_congr hword, List.flatMap_def, flatten_range_take_drop, hrest,
      List.take_append_drop]
  rw [hpayload] at htook
  have hnext : (R (t + 3 + payload.length / 32 + 4)).crc.currentCrcState ≠ .trailPart3 := by
    show ((fun c => (R c).crc) _).currentCrcState ≠ _
    rw [hstate4]
    split_ifs <;> decide
  constructor
  · by_cases hzero : payload.length % 32 = 0
    · rw [show t + chunkCount 32 payload.length + 7 = t + 3 + payload.length / 32 + 4 by omega]
      exact htook
    · rw [show t + chunkCount 32 payload.length + 7 = t + 3 + payload.length / 32 + 4 + 1 by omega,
        show (R (t + 3 + payload.length / 32 + 4 + 1)).crc = _ from h.crcRun.step _,
        RxCrc.finalCrc_edge hnext]
      exact htook
  · by_cases hsame : lastWord payload = payload.length / 32
    · rw [show t + lastWord payload + 3 + 3 = t + 3 + payload.length / 32 + 3 by omega]
      exact .inr hstate3
    · -- the last word was the one before: the module has seen a cycle without a frame
      have hbetween := (h.between (t + lastWord payload + 3) hend.ready hnone).2.1
      rw [show t + lastWord payload + 3 + 2 = t + 3 + payload.length / 32 + 3 by omega] at hbetween
      rw [show t + lastWord payload + 3 + 3 = t + 3 + payload.length / 32 + 4 by omega]
      refine .inl (hstate4.trans ?_)
      rw [hbetween, if_neg (maskOf_ne (by omega))]

/-- **A frame is delivered** word by word, good if its check is right and bad if it is not. -/
theorem frame_cycle :
    ∀ c < lastWord payload + 3, (R (t + 8 + c)).delivered = wordEvent payload check c := by
  have hlong := hframe.long
  have hend := h.frameEnd hready henable hframe hquiet
  have hmasked := h.masked hready henable hframe hquiet
  have hfound := h.terminate_found hready henable hframe hquiet hnone
  obtain ⟨htook, -⟩ := h.frame_crc hready henable hframe hquiet hnone hcrc
  obtain ⟨hnone1, hnone2, -, -, -, hreceived1, hreceived2, -⟩ := h.between
    (t + lastWord payload + 3) hend.ready hnone
  have hwords : chunkCount 32 payload.length = (payload.length + 31) / 32 := rfl
  have hlast : lastWord payload = (payload.length + 4) / 32 := rfl
  intro c hc
  have hc3 : t + c + 3 = t + 3 + c := by omega
  have hdata : (R (t + c + 3)).xlgmiiRxCrcMasked.c = maskOf (payload.length - 32 * c)
      ∧ (0 < payload.length - 32 * c → (R (t + c + 3)).xlgmiiRxCrcMasked.d
          = (wordAt (fun c => (x c).xlgmiiRx) (32 * (t + c) + 8 * a + 8)).d
        ∧ (R (t + c + 2)).currentMacState ≠ .idle) := by
    by_cases hle : c ≤ lastWord payload
    · obtain ⟨hmask, hword⟩ := hmasked c hle
      rw [hc3, show t + c + 2 = t + 2 + c by omega]
      exact ⟨hmask, fun hpos => hword (by omega)⟩
    · rw [show payload.length - 32 * c = 0 by omega]
      refine ⟨?_, fun hpos => absurd hpos (Nat.lt_irrefl 0)⟩
      have hcases : c = lastWord payload + 1 ∨ c = lastWord payload + 2 := by omega
      rcases hcases with rfl | rfl
      · exact hnone1
      · exact hnone2
  have hbytes : (bytesOf (wordAt (fun c => (x c).xlgmiiRx) (32 * (t + c) + 8 * a + 8)).d).take
        (payload.length - 32 * c)
      = (payload.drop (32 * c)).take 32 := by
    by_cases hle : 32 * c + 32 ≤ payload.length
    · rw [List.take_of_length_le (by rw [length_bytesOf]; omega),
        ← hframe.bytesOf_word c (Nat.le_refl 32) hle, List.take_of_length_le (by simp)]
    · by_cases hlt : 32 * c < payload.length
      · rw [hframe.bytesOf_word c (by omega) (by omega), List.take_of_length_le (by simp),
          List.take_of_length_le (by simp; omega)]
      · rw [show payload.length - 32 * c = 0 by omega, List.take_zero,
          List.drop_of_length_le (by omega), List.take_nil]
  have hdelivered := h.delivered_eq (t + c) hdata.1 hdata.2
  rw [hbytes, hfound c hc] at hdelivered
  rw [show t + 8 + c = t + c + 8 by omega, hdelivered, wordEvent, ← List.map_drop, ← List.map_take]
  congr 1
  by_cases heq : c + 1 = chunkCount 32 payload.length
  · have hcrcOut : (R (t + c + 8)).crc.crcOut = frameCheck payload := by
      rw [show t + c + 8 = t + chunkCount 32 payload.length + 7 by omega]
      exact htook.crcOutOf_eq
    have hreceived : (R (t + c + 5)).receivedCrc = check := by
      have hcases : t + c + 5 = t + lastWord payload + 3 + 1
          ∨ t + c + 5 = t + lastWord payload + 3 + 2 := by omega
      rcases hcases with hcase | hcase
      · rw [hcase, hreceived1, hend.received]
      · rw [hcase, hreceived2, hend.received]
    rw [decide_eq_true heq, if_pos rfl, if_pos heq, hcrcOut, hreceived]
    simp only [eq_comm]
  · rw [decide_eq_false heq, if_neg Bool.false_ne_true, if_neg heq]

theorem frame_delivered :
    (List.range (lastWord payload + 3)).flatMap (fun c => wordsOf (R (t + 8 + c)).delivered)
      = wordEvents payload check := by
  have hcycle := h.frame_cycle hready henable hframe hquiet hnone hcrc
  obtain ⟨r, hr⟩ : ∃ r, lastWord payload + 3 = chunkCount 32 payload.length + r :=
    ⟨lastWord payload + 3 - chunkCount 32 payload.length, by rw [lastWord, chunkCount]; omega⟩
  have hwords : ∀ c ∈ List.range (chunkCount 32 payload.length),
      wordsOf (R (t + 8 + c)).delivered = [wordEvent payload check c] := by
    intro c hc
    have hlt := List.mem_range.mp hc
    rw [hcycle c (by omega), wordsOf, if_neg (wordEvent_ne_nil hlt check)]
  have hnothing : ∀ c ∈ List.range r,
      wordsOf (R (t + 8 + (chunkCount 32 payload.length + c))).delivered = [] := by
    intro c hc
    have hlt := List.mem_range.mp hc
    rw [hcycle _ (by omega), wordEvent_eq_nil (by omega) check]
    rfl
  rw [hr, List.range_add, List.flatMap_append, List.flatMap_map, List.flatMap_congr hwords,
    List.flatMap_congr hnothing, ← List.map_eq_flatMap, wordEvents]
  simp

end Frames

/-! ## Runs -/

/-- The next word has no end of a frame, whatever comes. -/
theorem looks_ahead (h : RxRun x R) {t : Nat} {frames : List (List (BitVec 8) × BitVec 32)}
    (hready : (R t).Ready) (harrives : Arrives x t frames) :
    terminateLane ((R (t + 1)).xlgmiiRxAligned (x (t + 1))) = none := by
  have hidle : Quiet (x t) → terminateLane ((R (t + 1)).xlgmiiRxAligned (x (t + 1))) = none := by
    intro hquiet
    rw [MacRx.xlgmiiRxAligned, h.stays_idle t hready hquiet]
    exact terminateLane_idle
  cases harrives with
  | nil hquiet => exact hidle (hquiet t (Nat.le_refl t))
  | quiet hquiet _ => exact hidle hquiet
  | frame henable hframe _ _ =>
    have hlong := hframe.long
    exact h.recording_none hready henable hframe (j := 0) (by rw [lastWord]; omega)

/-- Where no frame begins the receiver waits for the next. -/
theorem quiet_ready (h : RxRun x R) {t : Nat} (hready : (R t).Ready) (hquiet : Quiet (x t)) :
    (R (t + 1)).Ready := by
  have hidle := h.stays_idle t hready hquiet
  have haligned : (R (t + 1)).xlgmiiRxAligned (x (t + 1)) = cIdle := by
    rw [MacRx.xlgmiiRxAligned, hidle]
  obtain ⟨-, -, -, -, huse, -, -, hz1⟩ :=
    h.between t hready (by rw [haligned]; exact terminateLane_idle)
  exact ⟨hidle, huse, .inr fun i => by rw [hz1]; rfl⟩

/-- A cycle in which no frame begins -/
theorem quiet_step (h : RxRun x R) {t : Nat} (hready : (R t).Ready) (hquiet : Quiet (x t))
    (hcrc : CrcReady (R (t + 3)))
    (hnone : terminateLane ((R (t + 2)).xlgmiiRxAligned (x (t + 2))) = none) :
    CrcReady (R (t + 4)) ∧ (R (t + 8)).delivered = [] := by
  obtain ⟨-, hmasked, -, hterm, -⟩ := h.between (t + 1) (h.quiet_ready hready hquiet) hnone
  refine ⟨.inl ?_, ?_⟩
  · show (R (t + 3 + 1)).crc.currentCrcState = _
    have hval : (R (t + 3)).xlgmiiRxCrcMasked.c ≠ maskOf 32 := by
      rw [hmasked]
      exact maskOf_ne (by omega)
    rw [show (R (t + 3 + 1)).crc = _ from h.crcRun.step (t + 3)]
    show ((R (t + 3)).crc.nextCrcState _ _ _).currentCrcState = _
    rw [RxCrc.nextCrcState]
    rcases hcrc with hstate | hstate
    · rw [hstate]
      dsimp only
      rw [if_neg fun hand => hval hand.1]
      exact hstate
    · rw [hstate]
      dsimp only
      rw [if_neg hval]
  · rw [h.delivered_eq t (d := fun _ => 0) hmasked (fun hpos => absurd hpos (Nat.lt_irrefl 0)),
      hterm]
    rfl

/-- When no more frames begin, nothing more is delivered. -/
theorem silent (h : RxRun x R) {t : Nat} (hready : (R t).Ready) (hcrc : CrcReady (R (t + 3)))
    (hquiet : ∀ c, t ≤ c → Quiet (x c)) :
    ∀ N : Nat, (R (t + N)).Ready ∧ CrcReady (R (t + N + 3))
      ∧ (List.range N).flatMap (fun c => wordsOf (R (t + 8 + c)).delivered) = []
  | 0 => ⟨hready, hcrc, rfl⟩
  | N + 1 => by
    obtain ⟨hready', hcrc', hnothing⟩ := h.silent hready hcrc hquiet N
    have hnext := h.quiet_ready hready' (hquiet _ (by omega))
    obtain ⟨hcrc2, hdelivered⟩ := h.quiet_step hready' (hquiet _ (by omega)) hcrc'
      (h.looks_ahead hnext (.nil fun c hc => hquiet c (by omega)))
    refine ⟨hnext, hcrc2, ?_⟩
    rw [List.range_succ, List.flatMap_append, hnothing, List.flatMap_singleton,
      show t + 8 + N = t + N + 8 by omega, hdelivered]
    rfl

/-- **All frames that arrive are delivered** word by word, one after the other. -/
theorem delivers_words (h : RxRun x R) {t : Nat} {frames : List (List (BitVec 8) × BitVec 32)}
    (harrives : Arrives x t frames) (hready : (R t).Ready) (hcrc : CrcReady (R (t + 3))) :
    ∃ n, ∀ N, n ≤ N → (List.range N).flatMap (fun c => wordsOf (R (t + 8 + c)).delivered)
      = frames.flatMap fun f => wordEvents f.1 f.2 := by
  -- what comes after some cycles, if these deliver something
  have hlater : ∀ (t m : Nat) (words rest : List (List RxEvent)),
      (List.range m).flatMap (fun c => wordsOf (R (t + 8 + c)).delivered) = words →
      (∃ n, ∀ N, n ≤ N → (List.range N).flatMap (fun c => wordsOf (R (t + m + 8 + c)).delivered)
        = rest) →
      ∃ n, ∀ N, n ≤ N → (List.range N).flatMap (fun c => wordsOf (R (t + 8 + c)).delivered)
        = words ++ rest := by
    intro t m words rest hwords ⟨n, hrest⟩
    refine ⟨m + n, fun N hN => ?_⟩
    obtain ⟨N, rfl⟩ := Nat.exists_eq_add_of_le (show m ≤ N by omega)
    rw [List.range_add, List.flatMap_append, hwords, List.flatMap_map, ← hrest N (by omega)]
    congr 2
    funext c
    rw [show t + 8 + (m + c) = t + m + 8 + c by omega]
  induction harrives with
  | nil hquiet => exact ⟨0, fun N _ => (h.silent hready hcrc hquiet N).2.2⟩
  | @quiet t frames hquiet hrest ih =>
    have hready' := h.quiet_ready hready hquiet
    obtain ⟨hcrc', hdelivered⟩ := h.quiet_step hready hquiet hcrc (h.looks_ahead hready' hrest)
    exact hlater t 1 [] _ (by simp [hdelivered, wordsOf]) (ih hready' hcrc')
  | @frame t a payload check frames henable hframe hquiet hrest ih =>
    have hready' := (h.frameEnd hready henable hframe hquiet).ready
    have hnone := h.looks_ahead hready' hrest
    have hdelivered := h.frame_delivered hready henable hframe hquiet hnone hcrc
    have hcrc' := (h.frame_crc hready henable hframe hquiet hnone hcrc).2
    exact hlater t (lastWord payload + 3) _ _ hdelivered (ih hready' hcrc')

/-- **All frames that arrive are delivered**, one after the other. -/
theorem delivers (h : RxRun x R) {t : Nat} {frames : List (List (BitVec 8) × BitVec 32)}
    (harrives : Arrives x t frames) (hready : (R t).Ready) (hcrc : CrcReady (R (t + 3))) :
    ∃ n, ∀ N, n ≤ N → (List.range N).flatMap (fun c => (R (t + 8 + c)).delivered)
      = frames.flatMap fun f => frameEvents f.1 f.2 := by
  obtain ⟨n, hn⟩ := h.delivers_words harrives hready hcrc
  refine ⟨n, fun N hN => ?_⟩
  have hflat := congrArg (List.flatMap id) (hn N hN)
  have hevents : ∀ f ∈ frames, (wordEvents f.1 f.2).flatMap id = frameEvents f.1 f.2 := by
    intro f hf
    rw [List.flatMap_id]
    exact flatten_wordEvents (harrives.long f hf) f.2
  rw [List.flatMap_assoc, List.flatMap_assoc, List.flatMap_congr hevents] at hflat
  simpa only [List.flatMap_id, flatten_wordsOf] using hflat

end RxRun

/-! ## From a reset on -/

namespace MacRx

/-- Nothing has been received since the reset. -/
structure Fresh (s : MacRx) : Prop where
  ready : s.Ready
  crc : s.crc.currentCrcState = .idle
  doReset : s.crcDoReset = false
  doResetZ1 : s.crcDoResetZ1 = false
  reset : s.crcReset = false

/-- Three cycles of a reset are enough, whatever the receiver was doing. -/
theorem fresh_of_reset (s : MacRx) {i j k : MacRxIn} (hi : i.macRst = true) (hj : j.macRst = true)
    (hk : k.macRst = true) :
    (((s.edge i).edge j).edge k).Fresh := by
  have hidle : ∀ (s : MacRx) {i : MacRxIn}, i.macRst = true →
      (s.edge i).currentMacState = .idle ∧ (s.edge i).crcDoReset = false := by
    intro s i hi
    rw [edge, hi]
    exact ⟨rfl, rfl⟩
  have haligned : ((s.edge i).edge j).xlgmiiRxAligned k = cIdle := by
    rw [xlgmiiRxAligned, (hidle (s.edge i) hj).1]
  refine ⟨⟨(hidle _ hk).1, ?_, .inr fun n => ?_⟩, ?_, (hidle _ hk).2, (hidle (s.edge i) hj).2,
    (hidle s hi).2⟩
  · rw [edge, hk]
    rfl
  · show (((s.edge i).edge j).xlgmiiRxAligned k).c n = true
    rw [haligned]
    rfl
  · rw [edge, hk]
    rfl

/-- A run from there on -/
theorem rxRun_atCycle (start : MacRx) {x : Nat → MacRxIn} (hrun : ∀ c, (x c).macRst = false) :
    RxRun x (atCycle edge start x) := ⟨hrun, fun _ => rfl⟩

theorem Fresh.crcReady {x : Nat → MacRxIn} {R : Nat → MacRx} (hfresh : (R 0).Fresh)
    (h : RxRun x R) : RxRun.CrcReady (R 3) := by
  have hstep : ∀ c, (R c).crc.currentCrcState = .idle → (R c).crcReset = false →
      (R (c + 1)).crc.currentCrcState = .idle := by
    intro c hcrc hreset
    rw [h.step, edge, h.run, hreset]
    show ((R c).crc.nextCrcState false _ _).currentCrcState = _
    rw [RxCrc.nextCrcState, hcrc]
    dsimp only
    rw [if_neg fun hand => Bool.false_ne_true hand.2]
    exact hcrc
  have hreset1 : (R 1).crcReset = false := by
    rw [h.step 0]
    exact hfresh.doResetZ1
  have hreset2 : (R 2).crcReset = false := by
    rw [h.step 1]
    show (R 1).crcDoResetZ1 = false
    rw [h.step 0]
    exact hfresh.doReset
  exact .inl (hstep 2 (hstep 1 (hstep 0 hfresh.crc hfresh.reset) hreset1) hreset2)

/-- What is delivered in the first cycles, from the eighth on; what comes before is from before the
reset. -/
def deliveredIn (start : MacRx) (x : Nat → MacRxIn) (N : Nat) : List RxEvent :=
  (List.range N).flatMap fun c => (atCycle edge start x (8 + c)).delivered

/-- A frame with its check, some idle lanes, and another frame -/
def twoFrames (f g : List (BitVec 8) × BitVec 32) (gap : Nat) : List Lane :=
  wireLanes f.1 f.2 ++ idleLanes gap ++ wireLanes g.1 g.2

section TwoFrames

variable {f g : List (BitVec 8) × BitVec 32} {gap t a : Nat}

end TwoFrames

/-- The receiver after a reset -/
def freshRx : MacRx :=
  ((edge default ⟨cIdle, true, false⟩).edge ⟨cIdle, true, false⟩).edge ⟨cIdle, true, false⟩

theorem fresh_freshRx : freshRx.Fresh := fresh_of_reset _ rfl rfl rfl

end MacRx

end MlibDevel.FortyGbe
