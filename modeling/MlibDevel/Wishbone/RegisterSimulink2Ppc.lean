import MlibDevel.Lib.Handshake
import Mathlib.Data.List.Forall2
import Mathlib.Data.List.Induction

/-!
# Status registers (`wb_register_simulink2ppc.v`)

The bus side requests the fabric's value over and over and latches what the fabric side has put into
`user_data_in_reg`; a bus read returns the value latched last.

A run is a list of clock edges in any order.  `Trace` records besides the flip-flops what a user of
the register sees: the inputs sampled by the fabric clock and the values the reads return.
-/

namespace MlibDevel.Wishbone

open Lib

namespace Simulink2Ppc

/-- The flip-flops of both sides. -/
structure Regs where
  registerRequest : Bool
  wbAckOReg : Bool
  registerReadyR : Bool
  registerReadyRR : Bool
  registerBuffer : BitVec 32
  registerRequestR : Bool
  registerRequestRR : Bool
  registerReady : Bool
  userDataInReg : BitVec 32
  deriving DecidableEq, Repr

/-- The inputs of the bus side. -/
structure WbIn where
  wbRst : Bool
  wbStb : Bool
  wbCyc : Bool
  deriving DecidableEq, Repr

/-- All flip-flops are zero. -/
def Regs.zero : Regs := ⟨false, false, false, false, 0, false, false, false, 0⟩

/-- `wb_dat_o` -/
def Regs.wbDatO (s : Regs) : BitVec 32 := if !s.wbAckOReg then 0 else s.registerBuffer

/-- `always @(posedge wb_clk_i)` -/
def Regs.wbEdge (s : Regs) (i : WbIn) : Regs :=
  { s with
    wbAckOReg := if i.wbRst then false else i.wbStb && i.wbCyc && !s.wbAckOReg
    registerReadyR := s.registerReady
    registerReadyRR := s.registerReadyR
    registerRequest :=
      -- the last of three assignments counts
      if !s.registerReadyRR then true
      else if s.registerReadyRR then false
      else if i.wbRst then false
      else s.registerRequest
    registerBuffer :=
      if s.registerReadyRR && s.registerRequest then s.userDataInReg else s.registerBuffer }

/-- `always @(posedge user_clk)` -/
def Regs.userEdge (s : Regs) (userDataIn : BitVec 32) : Regs :=
  { s with
    registerRequestR := s.registerRequest
    registerRequestRR := s.registerRequestR
    registerReady :=
      if s.registerRequestRR && !s.registerReady then true
      else if !s.registerRequestRR then false
      else if s.registerRequestRR then true
      else s.registerReady
    userDataInReg :=
      if s.registerRequestRR && !s.registerReady then userDataIn else s.userDataInReg }

/-- An edge of one of the clocks. -/
inductive Edge
  | wb (i : WbIn)
  | user (userDataIn : BitVec 32)

/-- The flip-flops and what has been seen of them. -/
structure Trace where
  regs : Regs
  /-- `user_data_in` at the edges of `user_clk` -/
  inputs : List (BitVec 32)
  /-- the bus side has latched a value -/
  transferred : Bool
  /-- the values returned by reads since then -/
  reads : List (BitVec 32)

/-- The start of a run. -/
def Trace.start : Trace := ⟨.zero, [], false, []⟩

/-- An edge of `wb_clk_i`, up to what a read sees of it. -/
def Trace.latch (tr : Trace) (i : WbIn) : Trace :=
  { tr with
    regs := tr.regs.wbEdge i
    transferred := tr.transferred || (tr.regs.registerReadyRR && tr.regs.registerRequest) }

/-- One edge.  A read returns its value while `wb_ack_o` is up. -/
def Trace.step (tr : Trace) : Edge → Trace
  | .wb i =>
    let tr := tr.latch i
    if tr.transferred && tr.regs.wbAckOReg then { tr with reads := tr.reads ++ [tr.regs.wbDatO] }
    else tr
  | .user userDataIn =>
    { tr with regs := tr.regs.userEdge userDataIn, inputs := tr.inputs ++ [userDataIn] }

/-- A run. -/
def run (es : List Edge) : Trace := es.foldl Trace.step .start

/-! ## The handshake -/

/-- The six flip-flops between the two sides. -/
def Regs.handshake (s : Regs) : Handshake where
  request := s.registerRequest
  requestR := s.registerRequestR
  requestRR := s.registerRequestRR
  ack := s.registerReady
  ackR := s.registerReadyR
  ackRR := s.registerReadyRR

theorem handshake_wbEdge (s : Regs) (i : WbIn) :
    (s.wbEdge i).handshake = s.handshake.nearEdge !s.registerReadyRR := by
  unfold Regs.wbEdge Regs.handshake Handshake.nearEdge
  cases s.registerReadyRR <;> rfl

theorem handshake_userEdge (s : Regs) (d : BitVec 32) :
    (s.userEdge d).handshake = s.handshake.farEdge := by
  unfold Regs.userEdge Regs.handshake Handshake.farEdge
  cases s.registerRequestRR <;> cases s.registerReady <;> rfl

theorem wbEdge_inPhase {s : Regs} (h : s.handshake.InPhase) (i : WbIn) :
    (s.wbEdge i).handshake.InPhase := by
  rw [handshake_wbEdge]
  refine h.nearEdge ?_ ?_
  · intro hRR
    rw [show s.registerReadyRR = true from hRR]
    rfl
  · intro hRR _
    rw [show s.registerReadyRR = false from hRR]
    rfl

/-! ## The values read -/

/-- `v` is the value of `user_data_in` at edge `i`. -/
def Sample (inputs : List (BitVec 32)) (v : BitVec 32) (i : Nat) : Prop := inputs[i]? = some v

theorem Sample.append {inputs : List (BitVec 32)} {v : BitVec 32} {i : Nat}
    (h : Sample inputs v i) (d : BitVec 32) : Sample (inputs ++ [d]) v i := by
  have hi := (List.getElem?_eq_some_iff.mp h).1
  unfold Sample at *
  rw [List.getElem?_append_left hi, h]

/--
The samples of a trace.  `buf` is the one in `register_buffer`, if there is one, and `reg` the one
in `user_data_in_reg` while the fabric side holds it ready.
-/
structure Sampled (tr : Trace) (idx : List Nat) (buf : Nat) : Prop where
  phase : tr.regs.handshake.InPhase
  sorted : idx.Pairwise (· ≤ ·)
  reads : List.Forall₂ (Sample tr.inputs) tr.reads idx
  idx_le : ∀ i ∈ idx, i ≤ buf
  buffer : tr.transferred = true → Sample tr.inputs tr.regs.registerBuffer buf
  first : tr.transferred = false → idx = [] ∧ buf = 0
  ready : tr.regs.registerReady = true →
    ∃ reg, buf ≤ reg ∧ Sample tr.inputs tr.regs.userDataInReg reg

theorem start_sampled : Sampled .start [] 0 where
  phase := Handshake.rest_inPhase
  sorted := List.Pairwise.nil
  reads := List.Forall₂.nil
  idx_le := by simp
  buffer := by simp [Trace.start]
  first := fun _ => ⟨rfl, rfl⟩
  ready := by simp [Trace.start, Regs.zero]

/-- The sample in `register_buffer` is one of those taken. -/
theorem Sampled.buf_le {tr : Trace} {idx : List Nat} {buf : Nat} (h : Sampled tr idx buf) :
    buf ≤ tr.inputs.length := by
  cases ht : tr.transferred with
  | true =>
    have hbuf := h.buffer ht
    exact Nat.le_of_lt (List.getElem?_eq_some_iff.mp hbuf).1
  | false =>
    rw [(h.first ht).2]
    exact Nat.zero_le _

/-- An edge of the fabric clock. -/
theorem Sampled.user {tr : Trace} {idx : List Nat} {buf : Nat} (h : Sampled tr idx buf)
    (d : BitVec 32) : Sampled (tr.step (.user d)) idx buf where
  phase := by
    show (tr.regs.userEdge d).handshake.InPhase
    rw [handshake_userEdge]
    exact h.phase.farEdge
  sorted := h.sorted
  reads := h.reads.imp fun _ _ hs => hs.append d
  idx_le := h.idx_le
  buffer := fun ht => (h.buffer ht).append d
  first := h.first
  ready := by
    show (tr.regs.userEdge d).registerReady = true →
      ∃ reg, buf ≤ reg ∧ Sample (tr.inputs ++ [d]) (tr.regs.userEdge d).userDataInReg reg
    unfold Regs.userEdge
    intro hready
    cases hRR : tr.regs.registerRequestRR with
    | false =>
      rw [hRR] at hready
      cases hready
    | true =>
      cases hr : tr.regs.registerReady with
      | true =>
        obtain ⟨reg, hle, hs⟩ := h.ready hr
        exact ⟨reg, hle, hs.append d⟩
      | false =>
        -- the fabric side takes a new sample
        refine ⟨tr.inputs.length, h.buf_le, ?_⟩
        unfold Sample
        simp

/-- Another read of the value in the buffer. -/
theorem Sampled.read {tr : Trace} {idx : List Nat} {buf : Nat} (h : Sampled tr idx buf)
    (ht : tr.transferred = true) (hack : tr.regs.wbAckOReg = true) :
    Sampled { tr with reads := tr.reads ++ [tr.regs.wbDatO] } (idx ++ [buf]) buf where
  phase := h.phase
  sorted := by
    refine List.pairwise_append.mpr ⟨h.sorted, List.pairwise_singleton _ _, ?_⟩
    intro i hi j hj
    rw [List.mem_singleton.mp hj]
    exact h.idx_le i hi
  reads := by
    have hdat : tr.regs.wbDatO = tr.regs.registerBuffer := by
      unfold Regs.wbDatO
      rw [hack]
      rfl
    rw [hdat]
    exact List.rel_append h.reads (List.Forall₂.cons (h.buffer ht) List.Forall₂.nil)
  idx_le := by
    intro i hi
    rcases List.mem_append.mp hi with hi | hi
    · exact h.idx_le i hi
    · rw [List.mem_singleton.mp hi]
  buffer := h.buffer
  first := by
    intro hf
    rw [show tr.transferred = false from hf] at ht
    cases ht
  ready := h.ready

/-- The bus side latches a value only when the fabric side holds it ready. -/
theorem Sampled.latch {tr : Trace} {idx : List Nat} {buf : Nat} (h : Sampled tr idx buf)
    (i : WbIn) : ∃ buf', Sampled (tr.latch i) idx buf' := by
  have hphase := wbEdge_inPhase h.phase i
  cases hload : tr.regs.registerReadyRR && tr.regs.registerRequest with
  | false =>
    refine ⟨buf, hphase, h.sorted, h.reads, h.idx_le, ?_, ?_, h.ready⟩
    · show (tr.transferred || _) = true → Sample tr.inputs (tr.regs.wbEdge i).registerBuffer buf
      unfold Regs.wbEdge
      rw [hload, Bool.or_false]
      exact h.buffer
    · show (tr.transferred || _) = false → _
      rw [hload, Bool.or_false]
      exact h.first
  | true =>
    obtain ⟨hRR, hreq⟩ := Bool.and_eq_true_iff.mp hload
    have hready : tr.regs.registerReady = true := (h.phase.settled hreq hRR).2.2.1
    obtain ⟨reg, hle, hs⟩ := h.ready hready
    refine ⟨reg, hphase, h.sorted, h.reads, fun j hj => Nat.le_trans (h.idx_le j hj) hle, ?_, ?_,
      fun _ => ⟨reg, Nat.le_refl _, hs⟩⟩
    · intro _
      show Sample tr.inputs (tr.regs.wbEdge i).registerBuffer reg
      unfold Regs.wbEdge
      rw [hload]
      exact hs
    · show (tr.transferred || _) = false → _
      rw [hload, Bool.or_true]
      intro hf
      cases hf

/-- **Every edge keeps the samples.** -/
theorem Sampled.step {tr : Trace} {idx : List Nat} {buf : Nat} (h : Sampled tr idx buf)
    (e : Edge) : ∃ idx' buf', Sampled (tr.step e) idx' buf' := by
  cases e with
  | user d => exact ⟨idx, buf, h.user d⟩
  | wb i =>
    obtain ⟨buf', h'⟩ := h.latch i
    unfold Trace.step
    dsimp only
    split
    · next hread =>
      obtain ⟨ht, hack⟩ := Bool.and_eq_true_iff.mp hread
      exact ⟨_, buf', h'.read ht hack⟩
    · exact ⟨idx, buf', h'⟩

theorem run_sampled (es : List Edge) : ∃ idx buf, Sampled (run es) idx buf := by
  unfold run
  induction es using List.reverseRecOn with
  | nil => exact ⟨[], 0, start_sampled⟩
  | append_singleton es e ih =>
    obtain ⟨idx, buf, h⟩ := ih
    rw [List.foldl_append]
    exact h.step e

/--
**Reads return samples of the fabric's value, in order, and the two sides exclude each other.**

For every order of clock edges, with reads and resets at any time: the values read are those
`user_data_in` had at edges of `user_clk` that do not go back, and the fabric side does not load
`user_data_in_reg` while the bus side may latch it.
-/
theorem reads_are_samples (es : List Edge) :
    (∃ idx : List Nat, idx.Pairwise (· ≤ ·) ∧
      List.Forall₂ (fun v i => (run es).inputs[i]? = some v) (run es).reads idx) ∧
    ((run es).regs.registerReadyRR = true → (run es).regs.registerRequest = true →
      ¬((run es).regs.registerRequestRR = true ∧ (run es).regs.registerReady = false)) := by
  obtain ⟨idx, buf, h⟩ := run_sampled es
  refine ⟨⟨idx, h.sorted, h.reads⟩, ?_⟩
  intro hRR hreq hload
  have hready := (h.phase.settled hreq hRR).2.2.1
  rw [show (run es).regs.handshake.ack = (run es).regs.registerReady from rfl, hload.2] at hready
  cases hready

end Simulink2Ppc

end MlibDevel.Wishbone
