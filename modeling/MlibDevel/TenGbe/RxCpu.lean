import MlibDevel.Lib.Cycles
import MlibDevel.TenGbe.RxFrame
import Mathlib.Data.List.Basic

/-!
# Frames for the CPU (`tge_rx.v`): the receive buffers

Every word of a frame is written into one half of the buffer; after a good frame for the CPU the
halves are swapped, as soon as the CPU has acknowledged the one before.

An observer of the MAC writes down the words of the frame that is coming in and, when it ends,
whether it was a good one for the CPU; `handed` holds what the CPU finds in the buffer after each
swap.
-/

namespace MlibDevel.TenGbe

open Lib

/-- `CPU_BUFFERING` and `CPU_WAIT` -/
inductive CpuState
  | buffering
  | wait
  deriving DecidableEq, Repr

/-- The registers of the CPU receive machine and of its handshake on the side of the MAC. -/
structure RxCpu where
  cpuState : CpuState
  cpuAddr : BitVec 8
  cpuBufferSelReg : Bool
  frameBypass : Bool
  cpuSize : BitVec 8
  cpuBufReady : Bool
  cpuAckR : Bool
  cpuAckRR : Bool
  deriving DecidableEq, Repr

namespace RxCpu

/-- `cpu_buffer_free` -/
def cpuBufferFree (s : RxCpu) : Bool := s.cpuSize == 0#8 && !s.cpuAckRR

/-- `cpu_buffer_wr_sel` -/
def cpuBufferWrSel (s : RxCpu) : Bool := !s.cpuBufferSelReg

/-- The state after a clock edge; of several assignments the last one counts. -/
def nextState (s : RxCpu) (frame : RxFrame) : CpuState :=
  match s.cpuState with
  | .buffering => if frame.cpuFrameValid then .wait else .buffering
  | .wait => if s.cpuBufferFree then .buffering else .wait

/-- `cpu_addr` after a clock edge. -/
def nextAddr (s : RxCpu) (frame : RxFrame) : BitVec 8 :=
  match s.cpuState with
  | .buffering =>
    if frame.cpuFrameInvalid || frame.cpuFrameValid && s.frameBypass then 0
    else if frame.cpuDvld && !(s.cpuAddr == 0xff#8) then s.cpuAddr + 1
    else s.cpuAddr
  | .wait => if s.cpuBufferFree then 0 else s.cpuAddr

/-- `frame_bypass` after a clock edge. -/
def nextBypass (s : RxCpu) (frame : RxFrame) : Bool :=
  if frame.cpuFrameInvalid || frame.cpuFrameValid then false
  else
    match s.cpuState with
    | .buffering => if frame.cpuDvld && s.cpuAddr == 0xff#8 then true else s.frameBypass
    | .wait => if frame.cpuDvld then true else s.frameBypass

/-- The edge of `mac_clk` in the CPU receive machine and its handshake. -/
def edge (s : RxCpu) (frame : RxFrame) (cpuRxAck : Bool) : RxCpu :=
  let swap := s.cpuState == .wait && s.cpuBufferFree
  { cpuState := s.nextState frame
    cpuAddr := s.nextAddr frame
    cpuBufferSelReg := if swap then !s.cpuBufferSelReg else s.cpuBufferSelReg
    frameBypass := s.nextBypass frame
    cpuSize := if swap then s.cpuAddr else if s.cpuAckRR then 0 else s.cpuSize
    cpuBufReady := if swap then true else if s.cpuAckRR then false else s.cpuBufReady
    cpuAckR := cpuRxAck
    cpuAckRR := s.cpuAckR }

/-- An edge with `mac_rst` high. -/
def reset (s : RxCpu) (cpuRxAck : Bool) : RxCpu where
  cpuState := .buffering
  cpuAddr := 0
  cpuBufferSelReg := false
  frameBypass := false
  cpuSize := 0
  cpuBufReady := false
  cpuAckR := cpuRxAck
  cpuAckRR := s.cpuAckR

end RxCpu

/-! ## Runs -/

namespace CpuBuffers

/-- The receiver and what has been seen of it. -/
structure Sys where
  frame : RxFrame
  cpu : RxCpu
  /-- `cpu_buffer`: its two halves -/
  buffer : Bool → BitVec 8 → BitVec 64
  /-- the words, up to the one in `R`, of the frame that is coming in -/
  words : List (BitVec 64)
  /-- the complete good frames for the CPU -/
  goodFrames : List (List (BitVec 64))
  /-- the words handed to the CPU at each swap -/
  handed : List (List (BitVec 64))

/-- What comes in a clock cycle. -/
structure In where
  rx : RxIn
  cpuRxAck : Bool

/-- The first `size` words of a half of the buffer. -/
def contents (half : BitVec 8 → BitVec 64) (size : BitVec 8) : List (BitVec 64) :=
  (List.range size.toNat).map fun i => half (BitVec.ofNat 8 i)

/-- The word in `R` ends a frame. -/
def Sys.flagged (s : Sys) : Bool := s.frame.macRxGoodFrameR || s.frame.macRxBadFrameR

/-- A frame goes on until it is flagged; another starts with a word all of whose bytes are valid. -/
def Sys.nextWords (s : Sys) (i : In) : List (BitVec 64) :=
  if s.words.isEmpty || s.flagged then
    if s.frame.frameStarts i.rx then [(s.frame.edge i.rx).cpuData] else []
  else s.words ++ [(s.frame.edge i.rx).cpuData]

/-- The frame that ends in this cycle, if it is a good one for the CPU. -/
def Sys.goodFrame (s : Sys) : List (List (BitVec 64)) :=
  if s.frame.cpuFrameValid && !s.frame.macRxBadFrameR && !s.words.isEmpty then [s.words] else []

/-- A clock cycle. -/
def Sys.step (s : Sys) (i : In) : Sys :=
  let cpu := s.cpu.edge s.frame i.cpuRxAck
  let buffer := fun half addr =>
    if s.frame.cpuDvld && half == s.cpu.cpuBufferWrSel && addr == s.cpu.cpuAddr then s.frame.cpuData
    else s.buffer half addr
  { frame := s.frame.edge i.rx
    cpu
    buffer
    words := s.nextWords i
    goodFrames := s.goodFrames ++ s.goodFrame
    handed := s.handed ++
      -- after a swap the CPU reads the other half, and `cpu_size` words of it
      if s.cpu.cpuState == .wait && s.cpu.cpuBufferFree then
        [contents (buffer cpu.cpuBufferSelReg) cpu.cpuSize]
      else [] }

/-- The receiver after a reset, from whatever the registers and the buffer held before. -/
def Sys.start (frame : RxFrame) (cpu : RxCpu) (buffer : Bool → BitVec 8 → BitVec 64) (i : In) :
    Sys where
  frame := frame.reset i.rx.mac
  cpu := cpu.reset i.cpuRxAck
  buffer
  words := []
  goodFrames := []
  handed := []

/-- The words that wait in the buffer for the CPU. -/
def Sys.waiting (s : Sys) : List (List (BitVec 64)) :=
  if s.cpu.cpuState == .wait then
    [contents (s.buffer s.cpu.cpuBufferWrSel) s.cpu.cpuAddr]
  else []

/--
What is handed to the CPU, or waits for it, are all the words of complete good frames for the CPU,
each of them once and in order.
-/
def Sys.Faithful (s : Sys) : Prop := (s.handed ++ s.waiting).Sublist s.goodFrames

/-- The receiver in cycle `t`. -/
def run (frame : RxFrame) (cpu : RxCpu) (buffer : Bool → BitVec 8 → BitVec 64) (i : In)
    (input : Nat → In) : Nat → Sys :=
  atCycle Sys.step (.start frame cpu buffer i) input

/--
What the CPU receive machine needs: no good frame for the CPU ends while the bypass flag is set or
at the last address of the buffer, no frame is flagged before its header has been looked at, and
none starts in the cycle after the last word of another.
-/
structure Regular (frame : RxFrame) (cpu : RxCpu) (i : RxIn) : Prop where
  fits : cpu.cpuState = .buffering → frame.cpuFrameValid = true →
    frame.macRxBadFrameR = false ∧ cpu.frameBypass = false ∧ cpu.cpuAddr ≠ 0xff#8
  header : (frame.macRxGoodFrameR || frame.macRxBadFrameR) = true →
    frame.rxState = .data ∨ frame.rxState = .idle ∧ frame.cpuFrameValid = false
  gap : (frame.macRxGoodFrameR || frame.macRxBadFrameR) = true → frame.rxState = .data →
    frame.frameStarts i = false

instance (frame : RxFrame) (cpu : RxCpu) (i : RxIn) : Decidable (Regular frame cpu i) :=
  decidable_of_iff
    ((cpu.cpuState = .buffering → frame.cpuFrameValid = true →
        frame.macRxBadFrameR = false ∧ cpu.frameBypass = false ∧ cpu.cpuAddr ≠ 0xff#8) ∧
      ((frame.macRxGoodFrameR || frame.macRxBadFrameR) = true →
        frame.rxState = .data ∨ frame.rxState = .idle ∧ frame.cpuFrameValid = false) ∧
      ((frame.macRxGoodFrameR || frame.macRxBadFrameR) = true → frame.rxState = .data →
        frame.frameStarts i = false))
    ⟨fun h => ⟨h.1, h.2.1, h.2.2⟩, fun h => ⟨h.fits, h.header, h.gap⟩⟩

/-! ## The words in the buffer -/

section Contents

variable (half : BitVec 8 → BitVec 64) (size : BitVec 8)

@[simp] theorem contents_zero : contents half 0#8 = [] := rfl

/-- A write behind the words leaves them as they are. -/
theorem contents_write (d : BitVec 64) :
    contents (fun addr => if addr == size then d else half addr) size = contents half size := by
  unfold contents
  refine List.map_congr_left ?_
  intro i hi
  have hlt : i < size.toNat := List.mem_range.mp hi
  have hne : BitVec.ofNat 8 i ≠ size := by
    intro he
    have hmod := congrArg BitVec.toNat he
    rw [BitVec.toNat_ofNat, Nat.mod_eq_of_lt (by omega)] at hmod
    omega
  exact if_neg (by simpa using hne)

/-- A word written behind the words is the next one. -/
theorem contents_succ (h : size ≠ 0xff#8) :
    contents half (size + 1) = contents half size ++ [half size] := by
  have hsize : (size + 1).toNat = size.toNat + 1 := by
    have hne : size.toNat ≠ 255 := fun he => h (BitVec.eq_of_toNat_eq he)
    have hlt := size.isLt
    rw [BitVec.toNat_add]
    show (size.toNat + 1) % 2 ^ 8 = _
    omega
  unfold contents
  rw [hsize, List.range_succ, List.map_append]
  simp

end Contents

/-! ## Every cycle keeps the words -/

/--
The machine follows the frame.  While it buffers one, the words before the one in `R` are those in
the buffer.
-/
structure Inv (s : Sys) : Prop where
  idle : s.words = [] ↔ s.frame.rxState = .idle
  last : s.words ≠ [] → s.words = s.words.dropLast ++ [s.frame.cpuData]
  buffered : s.cpu.cpuState = .buffering → s.cpu.frameBypass = false →
    contents (s.buffer s.cpu.cpuBufferWrSel) s.cpu.cpuAddr = s.words.dropLast
  faithful : s.Faithful

theorem start_inv (frame : RxFrame) (cpu : RxCpu) (buffer : Bool → BitVec 8 → BitVec 64) (i : In) :
    Inv (.start frame cpu buffer i) where
  idle := by simp [Sys.start, RxFrame.reset]
  last := by simp [Sys.start]
  buffered := fun _ _ => rfl
  faithful := List.Sublist.refl _

section Steps

variable {s : Sys} {i : In}

/-- After the last word of a frame, at most one word of another has come. -/
theorem nextWords_dropLast (h : s.words = [] ∨ s.flagged = true) :
    (s.nextWords i).dropLast = [] := by
  have hnew : (s.words.isEmpty || s.flagged) = true := by
    rcases h with h | h
    · rw [h]
      rfl
    · rw [h, Bool.or_true]
  unfold Sys.nextWords
  rw [if_pos hnew]
  split <;> rfl

/-- The frame goes on. -/
theorem nextWords_append (h : s.words ≠ []) (hf : s.flagged = false) :
    s.nextWords i = s.words ++ [(s.frame.edge i.rx).cpuData] := by
  unfold Sys.nextWords
  rw [if_neg (by simp [h, hf])]

theorem nextWords_last (h : s.nextWords i ≠ []) :
    s.nextWords i = (s.nextWords i).dropLast ++ [(s.frame.edge i.rx).cpuData] := by
  unfold Sys.nextWords at *
  by_cases hnew : (s.words.isEmpty || s.flagged) = true
  · rw [if_pos hnew] at h ⊢
    split at h
    · next hs =>
      rw [if_pos hs]
      rfl
    · exact absurd rfl h
  · rw [if_neg hnew]
    simp

/-- The observer and the state machine agree on where a frame is. -/
theorem Inv.idle_step (h : Inv s) (hr : Regular s.frame s.cpu i.rx) :
    s.nextWords i = [] ↔ s.frame.nextState i.rx = .idle := by
  by_cases hs : s.frame.rxState = .idle
  · have hw := h.idle.mpr hs
    unfold Sys.nextWords RxFrame.nextState
    rw [hs, hw]
    cases s.frame.frameStarts i.rx <;> cases s.frame.macMismatch i.rx.params <;> simp
  · have hw : s.words ≠ [] := fun he => hs (h.idle.mp he)
    cases hf : s.flagged with
    | true =>
      have hdata : s.frame.rxState = .data := by
        rcases hr.header hf with hd | ⟨hi, -⟩
        · exact hd
        · exact absurd hi hs
      have hgap := hr.gap hf hdata
      unfold Sys.flagged at hf
      unfold Sys.nextWords Sys.flagged RxFrame.nextState
      rw [hdata, hf, hgap]
      simp
    | false =>
      have hnext := RxFrame.nextState_ne_idle i.rx hs hf
      rw [nextWords_append hw hf]
      simp [hnext]

/-- The words in front of `cpu_addr` stay. -/
theorem contents_step (s : Sys) (i : In) :
    contents ((s.step i).buffer s.cpu.cpuBufferWrSel) s.cpu.cpuAddr
      = contents (s.buffer s.cpu.cpuBufferWrSel) s.cpu.cpuAddr := by
  cases hd : s.frame.cpuDvld with
  | false =>
    have hb : (s.step i).buffer s.cpu.cpuBufferWrSel = s.buffer s.cpu.cpuBufferWrSel := by
      funext addr
      simp [Sys.step, hd]
    rw [hb]
  | true =>
    have hb : (s.step i).buffer s.cpu.cpuBufferWrSel = fun addr =>
        if addr == s.cpu.cpuAddr then s.frame.cpuData
        else s.buffer s.cpu.cpuBufferWrSel addr := by
      funext addr
      simp [Sys.step, hd]
    rw [hb]
    exact contents_write _ _ _

/-- The word in `R` is written at `cpu_addr`. -/
theorem contents_step_succ (i : In) (hd : s.frame.cpuDvld = true) (ha : s.cpu.cpuAddr ≠ 0xff#8) :
    contents ((s.step i).buffer s.cpu.cpuBufferWrSel) (s.cpu.cpuAddr + 1)
      = contents (s.buffer s.cpu.cpuBufferWrSel) s.cpu.cpuAddr ++ [s.frame.cpuData] := by
  have hnew : (s.step i).buffer s.cpu.cpuBufferWrSel s.cpu.cpuAddr = s.frame.cpuData := by
    simp [Sys.step, hd]
  rw [contents_succ _ _ ha, contents_step, hnew]

/-- While a frame is buffered the halves stay as they are. -/
theorem wrSel_of_buffering (i : In) (hs : s.cpu.cpuState = .buffering) :
    (s.step i).cpu.cpuBufferWrSel = s.cpu.cpuBufferWrSel := by
  simp [Sys.step, RxCpu.edge, RxCpu.cpuBufferWrSel, hs]

theorem Inv.dvld (h : Inv s) : s.frame.cpuDvld = true ↔ s.words ≠ [] := by
  unfold RxFrame.cpuDvld
  rw [Ne, h.idle]
  simp

/-- A flag that does not end a good frame for the CPU is the end of an invalid one. -/
theorem invalid_of_flagged (hf : s.flagged = true) (hv : s.frame.cpuFrameValid = false) :
    s.frame.cpuFrameInvalid = true := by
  unfold Sys.flagged at hf
  unfold RxFrame.cpuFrameValid at hv
  unfold RxFrame.cpuFrameInvalid
  cases hb : s.frame.macRxBadFrameR with
  | true => rfl
  | false =>
    rw [hb, Bool.or_false] at hf
    rw [hf, Bool.true_and] at hv
    rw [hf, hv]
    rfl

/-- Without a flag no frame ends. -/
theorem not_ended_of_not_flagged (hf : s.flagged = false) :
    s.frame.cpuFrameValid = false ∧ s.frame.cpuFrameInvalid = false := by
  unfold Sys.flagged at hf
  obtain ⟨hg, hb⟩ := Bool.or_eq_false_iff.mp hf
  unfold RxFrame.cpuFrameValid RxFrame.cpuFrameInvalid
  rw [hg, hb]
  exact ⟨rfl, rfl⟩

/-- The word in `R` joins those in the buffer. -/
theorem Inv.buffered_succ (h : Inv s) (i : In) (hs : s.cpu.cpuState = .buffering)
    (hb : s.cpu.frameBypass = false) (hw : s.words ≠ []) (ha : s.cpu.cpuAddr ≠ 0xff#8) :
    contents ((s.step i).buffer s.cpu.cpuBufferWrSel) (s.cpu.cpuAddr + 1) = s.words := by
  rw [contents_step_succ i (h.dvld.mpr hw) ha, h.buffered hs hb]
  exact (h.last hw).symm

theorem Inv.buffered_step (h : Inv s) (hs' : (s.step i).cpu.cpuState = .buffering)
    (hb' : (s.step i).cpu.frameBypass = false) :
    contents ((s.step i).buffer (s.step i).cpu.cpuBufferWrSel) (s.step i).cpu.cpuAddr
      = (s.nextWords i).dropLast := by
  have hst : s.cpu.nextState s.frame = .buffering := hs'
  have hby : s.cpu.nextBypass s.frame = false := hb'
  have haddr : (s.step i).cpu.cpuAddr = s.cpu.nextAddr s.frame := rfl
  rw [haddr]
  unfold RxCpu.nextState at hst
  unfold RxCpu.nextBypass at hby
  unfold RxCpu.nextAddr
  cases hs : s.cpu.cpuState with
  | buffering =>
    rw [hs] at hst hby
    rw [wrSel_of_buffering i hs]
    have hv : s.frame.cpuFrameValid = false := by
      by_contra hc
      simp [hc] at hst
    cases hf : s.flagged with
    | true =>
      -- an unsuitable frame ends
      rw [invalid_of_flagged hf hv, nextWords_dropLast (Or.inr hf)]
      rfl
    | false =>
      have hinv := (not_ended_of_not_flagged hf).2
      rw [hv, hinv] at hby ⊢
      by_cases hw : s.words = []
      · have hd : s.frame.cpuDvld = false := by
          by_contra hc
          exact h.dvld.mp (by simpa using hc) hw
        rw [hd] at hby ⊢
        rw [nextWords_dropLast (Or.inl hw)]
        show contents _ s.cpu.cpuAddr = []
        rw [contents_step, h.buffered hs (by simpa using hby), hw]
        rfl
      · have hd := h.dvld.mpr hw
        rw [hd] at hby ⊢
        have ha : s.cpu.cpuAddr ≠ 0xff#8 := by
          intro hc
          simp [hc] at hby
        have hbyp : s.cpu.frameBypass = false := by
          simpa [ha] using hby
        rw [nextWords_append hw hf, List.dropLast_concat, ← h.buffered_succ i hs hbyp hw ha]
        simp [ha]
  | wait =>
    rw [hs] at hst hby
    have hfree : s.cpu.cpuBufferFree = true := by
      by_contra hc
      simp [hc] at hst
    rw [nextWords_dropLast]
    · simp [hfree]
    · -- a frame that comes in while the machine waits is bypassed
      cases hf : s.flagged with
      | true => exact Or.inr rfl
      | false =>
        obtain ⟨hv, hinv⟩ := not_ended_of_not_flagged hf
        rw [hv, hinv] at hby
        refine Or.inl ?_
        by_contra hw
        have hd := h.dvld.mpr hw
        simp [hd] at hby

theorem Inv.faithful_step (h : Inv s) (hr : Regular s.frame s.cpu i.rx) :
    (s.step i).Faithful := by
  have hfaithful := h.faithful
  unfold Sys.Faithful Sys.waiting at *
  cases hs : s.cpu.cpuState with
  | buffering =>
    rw [hs] at hfaithful
    have hhanded : (s.step i).handed = s.handed := by
      simp [Sys.step, hs]
    have hgood : (s.step i).goodFrames = s.goodFrames ++ s.goodFrame := rfl
    have hst : (s.step i).cpu.cpuState = s.cpu.nextState s.frame := rfl
    have haddr : (s.step i).cpu.cpuAddr = s.cpu.nextAddr s.frame := rfl
    rw [hhanded, hgood, hst, haddr, wrSel_of_buffering i hs]
    unfold RxCpu.nextState RxCpu.nextAddr Sys.goodFrame
    rw [hs]
    simp only [List.append_nil, beq_iff_eq, reduceCtorEq, if_false] at hfaithful
    cases hv : s.frame.cpuFrameValid with
    | false => simpa using hfaithful
    | true =>
      -- a good frame ends, and all of it is in the buffer
      obtain ⟨hbad, hbyp, ha⟩ := hr.fits hs hv
      have hw : s.words ≠ [] := by
        intro hc
        have hi := h.idle.mp hc
        have hf : (s.frame.macRxGoodFrameR || s.frame.macRxBadFrameR) = true := by
          unfold RxFrame.cpuFrameValid at hv
          rw [(Bool.and_eq_true_iff.mp hv).1]
          rfl
        rcases hr.header hf with hd | ⟨-, hn⟩
        · rw [hd] at hi
          cases hi
        · rw [hn] at hv
          cases hv
      have hvalid : s.frame.cpuFrameInvalid = false := by
        unfold RxFrame.cpuFrameValid at hv
        unfold RxFrame.cpuFrameInvalid
        rw [hbad, (Bool.and_eq_true_iff.mp hv).1, (Bool.and_eq_true_iff.mp hv).2]
        rfl
      have hd := h.dvld.mpr hw
      have hwords := h.buffered_succ i hs hbyp hw ha
      simp only [hvalid, hbyp, hd, hbad, Bool.and_false, Bool.or_self, Bool.true_and, if_true,
        if_false, Bool.not_false, Bool.false_eq_true, beq_self_eq_true]
      rw [if_pos (by simpa using ha), if_pos (by simpa using hw), hwords]
      exact hfaithful.append (List.Sublist.refl _)
  | wait =>
    have hgood : (s.step i).goodFrames = s.goodFrames ++ s.goodFrame := rfl
    rw [hs] at hfaithful
    rw [hgood]
    cases hfree : s.cpu.cpuBufferFree with
    | false =>
      have hhanded : (s.step i).handed = s.handed := by
        simp [Sys.step, hfree]
      have hst : (s.step i).cpu.cpuState = .wait := by
        simp [Sys.step, RxCpu.edge, RxCpu.nextState, hs, hfree]
      have haddr : (s.step i).cpu.cpuAddr = s.cpu.cpuAddr := by
        simp [Sys.step, RxCpu.edge, RxCpu.nextAddr, hs, hfree]
      have hsel : (s.step i).cpu.cpuBufferWrSel = s.cpu.cpuBufferWrSel := by
        simp [Sys.step, RxCpu.edge, RxCpu.cpuBufferWrSel, hfree]
      rw [hhanded, hst, haddr, hsel, contents_step]
      exact hfaithful.trans (List.sublist_append_left _ _)
    | true =>
      -- the words that waited are handed over
      have hhanded : (s.step i).handed
          = s.handed ++ [contents ((s.step i).buffer s.cpu.cpuBufferWrSel) s.cpu.cpuAddr] := by
        simp [Sys.step, RxCpu.edge, RxCpu.cpuBufferWrSel, hs, hfree]
      have hst : (s.step i).cpu.cpuState = .buffering := by
        simp [Sys.step, RxCpu.edge, RxCpu.nextState, hs, hfree]
      rw [hhanded, hst, contents_step]
      simp only [beq_iff_eq, reduceCtorEq, if_false, List.append_nil]
      exact hfaithful.trans (List.sublist_append_left _ _)

theorem Inv.step (h : Inv s) (hr : Regular s.frame s.cpu i.rx) : Inv (s.step i) where
  idle := h.idle_step hr
  last := nextWords_last
  buffered := h.buffered_step
  faithful := h.faithful_step hr

end Steps

end CpuBuffers

end MlibDevel.TenGbe
