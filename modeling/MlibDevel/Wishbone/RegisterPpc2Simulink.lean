import MlibDevel.Lib.Handshake
import Mathlib.Data.List.Forall2
import Mathlib.Data.List.Induction

/-!
# Software registers (`wb_register_ppc2simulink.v`)

A bus write puts its value into `reg_buffer` and raises `register_ready`; the fabric side copies the
buffer to its output while it sees the signal.

`register_ready` cannot be set while the acknowledgement of the write before is still up.  A write
at that time reaches the fabric only if the fabric side still sees the old request; otherwise its
value stays in `reg_buffer` (`writes_reach_fabric_iff`).
-/

namespace MlibDevel.Wishbone

open Lib

namespace Ppc2Simulink

/-- The flip-flops of both sides. -/
structure Regs where
  regBuffer : BitVec 32
  registerReady : Bool
  wbAckReg : Bool
  registerDoneR : Bool
  registerDoneRR : Bool
  registerReadyR : Bool
  registerReadyRR : Bool
  registerDone : Bool
  userDataOutReg : BitVec 32
  deriving DecidableEq, Repr

/-- The inputs of the bus side. -/
structure WbIn where
  wbRst : Bool
  wbStb : Bool
  wbCyc : Bool
  wbWe : Bool
  wbDatI : BitVec 32
  deriving DecidableEq, Repr

/-- After a reset, when the synchronisers have settled.  The output is not reset. -/
def Regs.reset (initVal out : BitVec 32) : Regs :=
  ⟨initVal, false, false, false, false, false, false, false, out⟩

/-- The bus side acknowledges at this edge. -/
def Regs.accepts (s : Regs) (i : WbIn) : Bool := !i.wbRst && (i.wbStb && i.wbCyc && !s.wbAckReg)

/-- `always @(posedge wb_clk_i)` -/
def Regs.wbEdge (initVal : BitVec 32) (s : Regs) (i : WbIn) : Regs :=
  { s with
    wbAckReg := s.accepts i
    registerDoneR := s.registerDone
    registerDoneRR := s.registerDoneR
    registerReady :=
      -- the last assignment counts
      if s.registerDoneRR then false
      else if i.wbRst then false
      else if s.accepts i && i.wbWe then true
      else s.registerReady
    regBuffer :=
      if i.wbRst then initVal
      else if s.accepts i && i.wbWe then i.wbDatI
      else s.regBuffer }

/-- `always @(posedge user_clk)` -/
def Regs.userEdge (s : Regs) : Regs :=
  { s with
    registerReadyR := s.registerReady
    registerReadyRR := s.registerReadyR
    registerDone :=
      if s.registerReadyRR then true else if !s.registerReadyRR then false else s.registerDone
    userDataOutReg := if s.registerReadyRR then s.regBuffer else s.userDataOutReg }

/-- `wb_dat_o` -/
def Regs.wbDatO (s : Regs) : BitVec 32 := if !s.wbAckReg then 0 else s.regBuffer

/-- An edge of one of the clocks. -/
inductive Edge
  | wb (i : WbIn)
  | user

/-- The flip-flops and what has been seen of them. -/
structure Trace where
  regs : Regs
  /-- the values of the acknowledged writes -/
  written : List (BitVec 32)
  /-- the values `user_data_out` has taken -/
  taken : List (BitVec 32)

/-- A write is acknowledged at this edge. -/
def Regs.writes (s : Regs) (i : WbIn) : Bool := s.accepts i && i.wbWe

/-- One edge. -/
def Trace.step (initVal : BitVec 32) (tr : Trace) : Edge → Trace
  | .wb i =>
    { tr with
      regs := tr.regs.wbEdge initVal i
      written := if tr.regs.writes i then tr.written ++ [i.wbDatI] else tr.written }
  | .user =>
    { tr with
      regs := tr.regs.userEdge
      taken := if tr.regs.registerReadyRR then tr.taken ++ [tr.regs.regBuffer] else tr.taken }

/-- A run after a reset. -/
def run (initVal out : BitVec 32) (es : List Edge) : Trace :=
  es.foldl (Trace.step initVal) ⟨.reset initVal out, [], []⟩

/-- The hand-shake is at rest. -/
def Regs.AtRest (s : Regs) : Prop :=
  s.registerReady = false ∧ s.registerDone = false ∧ s.registerReadyR = false ∧
    s.registerReadyRR = false ∧ s.registerDoneR = false ∧ s.registerDoneRR = false

/-! ## The handshake -/

/-- The six flip-flops between the two sides. -/
def Regs.handshake (s : Regs) : Handshake where
  request := s.registerReady
  requestR := s.registerReadyR
  requestRR := s.registerReadyRR
  ack := s.registerDone
  ackR := s.registerDoneR
  ackRR := s.registerDoneRR

theorem handshake_userEdge (s : Regs) : s.userEdge.handshake = s.handshake.farEdge := by
  unfold Regs.userEdge Regs.handshake Handshake.farEdge
  cases s.registerReadyRR <;> rfl

theorem wbEdge_inPhase {initVal : BitVec 32} {s : Regs} (h : s.handshake.InPhase) {i : WbIn}
    (hrst : i.wbRst = false) : (s.wbEdge initVal i).handshake.InPhase := by
  refine Handshake.InPhase.nearEdge h ?_ ?_
  · intro hRR
    have hdone : s.registerDoneRR = true := hRR
    show (if s.registerDoneRR then false else _) = false
    rw [if_pos hdone]
  · intro hRR hreq
    have hdone : s.registerDoneRR = false := hRR
    have hready : s.registerReady = true := hreq
    show (if s.registerDoneRR then false else if i.wbRst then false
      else if s.accepts i && i.wbWe then true else s.registerReady) = true
    rw [hdone, hrst, hready, ite_self]
    rfl

/-! ## Order -/

/-- `idx` tells which of the writes the values taken are. -/
structure Ordered (tr : Trace) (idx : List Nat) : Prop where
  phase : tr.regs.handshake.InPhase
  buffer : tr.written ≠ [] → tr.written.getLast? = some tr.regs.regBuffer
  requested : tr.written = [] → tr.regs.registerReady = false ∧ tr.regs.registerReadyR = false ∧
    tr.regs.registerReadyRR = false
  sorted : idx.Pairwise (· ≤ ·)
  bound : ∀ j ∈ idx, j < tr.written.length
  taken : List.Forall₂ (fun v i => tr.written[i]? = some v) tr.taken idx

theorem reset_ordered (initVal out : BitVec 32) : Ordered ⟨.reset initVal out, [], []⟩ [] where
  phase := Handshake.rest_inPhase
  buffer := by simp
  requested := fun _ => ⟨rfl, rfl, rfl⟩
  sorted := List.Pairwise.nil
  bound := by simp
  taken := List.Forall₂.nil

/-- The bus side adds to the values written. -/
theorem Ordered.wb {initVal : BitVec 32} {tr : Trace} {idx : List Nat} (h : Ordered tr idx)
    {i : WbIn} (hrst : i.wbRst = false) : Ordered (tr.step initVal (.wb i)) idx := by
  have hphase : (tr.regs.wbEdge initVal i).handshake.InPhase := wbEdge_inPhase h.phase hrst
  cases hw : tr.regs.writes i with
  | false =>
    have hwritten : (tr.step initVal (.wb i)).written = tr.written := by
      show (if tr.regs.writes i then _ else _) = _
      rw [hw]
      rfl
    have hbuf : (tr.regs.wbEdge initVal i).regBuffer = tr.regs.regBuffer := by
      show (if i.wbRst then _ else if tr.regs.writes i then _ else _) = _
      rw [hrst, hw]
      rfl
    refine ⟨hphase, ?_, ?_, h.sorted, by rw [hwritten]; exact h.bound, ?_⟩
    · rw [hwritten]
      intro hne
      rw [h.buffer hne]
      exact congrArg some hbuf.symm
    · rw [hwritten]
      intro hnil
      obtain ⟨hready, hrest⟩ := h.requested hnil
      refine ⟨?_, hrest⟩
      show (if tr.regs.registerDoneRR then false else if i.wbRst then false
        else if tr.regs.writes i then true else tr.regs.registerReady) = false
      rw [hrst, hw, hready]
      exact ite_self false
    · rw [hwritten]
      exact h.taken
  | true =>
    have hwritten : (tr.step initVal (.wb i)).written = tr.written ++ [i.wbDatI] := by
      show (if tr.regs.writes i then _ else _) = _
      rw [hw]
      rfl
    have hbuf : (tr.regs.wbEdge initVal i).regBuffer = i.wbDatI := by
      show (if i.wbRst then _ else if tr.regs.writes i then _ else _) = _
      rw [hrst, hw]
      rfl
    refine ⟨hphase, ?_, ?_, h.sorted, ?_, ?_⟩
    · intro _
      rw [hwritten, List.getLast?_concat]
      exact congrArg some hbuf.symm
    · rw [hwritten]
      intro hnil
      exact absurd hnil (by simp)
    · intro j hj
      rw [hwritten, List.length_append]
      have := h.bound j hj
      omega
    · rw [hwritten]
      refine h.taken.imp ?_
      intro v j hj
      rw [List.getElem?_append_left (List.getElem?_eq_some_iff.mp hj).1, hj]

/-- The fabric side takes the value written last. -/
theorem Ordered.user {initVal : BitVec 32} {tr : Trace} {idx : List Nat} (h : Ordered tr idx) :
    ∃ idx', Ordered (tr.step initVal .user) idx' := by
  have hphase : tr.regs.userEdge.handshake.InPhase := by
    rw [handshake_userEdge]
    exact h.phase.farEdge
  have hrequested : tr.written = [] → tr.regs.userEdge.registerReady = false ∧
      tr.regs.userEdge.registerReadyR = false ∧ tr.regs.userEdge.registerReadyRR = false := by
    intro hnil
    obtain ⟨hready, hR, -⟩ := h.requested hnil
    exact ⟨hready, hready, hR⟩
  cases hRR : tr.regs.registerReadyRR with
  | false =>
    refine ⟨idx, hphase, h.buffer, hrequested, h.sorted, h.bound, ?_⟩
    show List.Forall₂ _ (if tr.regs.registerReadyRR then _ else _) idx
    rw [hRR]
    exact h.taken
  | true =>
    have hne : tr.written ≠ [] := by
      intro hnil
      rw [(h.requested hnil).2.2] at hRR
      cases hRR
    have hlast := h.buffer hne
    rw [List.getLast?_eq_getElem?] at hlast
    have hpos := List.length_pos_of_ne_nil hne
    refine ⟨idx ++ [tr.written.length - 1], hphase, h.buffer, hrequested, ?_, ?_, ?_⟩
    · refine List.pairwise_append.mpr ⟨h.sorted, List.pairwise_singleton _ _, ?_⟩
      intro j hj k hk
      rw [List.mem_singleton.mp hk]
      have := h.bound j hj
      omega
    · intro j hj
      rcases List.mem_append.mp hj with hj | hj
      · exact h.bound j hj
      · rw [List.mem_singleton.mp hj]
        show _ < tr.written.length
        omega
    · show List.Forall₂ _ (if tr.regs.registerReadyRR then _ else _) _
      rw [hRR]
      exact List.rel_append h.taken (List.Forall₂.cons hlast List.Forall₂.nil)

/-! ## Delivery -/

/-- The value in the buffer has reached the fabric, or is going to. -/
def Delivered (tr : Trace) : Prop :=
  tr.written ≠ [] → tr.regs.userDataOutReg = tr.regs.regBuffer ∨ tr.regs.registerReady = true ∨
    tr.regs.registerReadyR = true ∨ tr.regs.registerReadyRR = true

/--
A write at this time reaches the fabric: the last acknowledgement is down, or the fabric side still
sees the last request.  A write of the value that the fabric has already cannot be lost.
-/
def Regs.Hears (s : Regs) (i : WbIn) : Prop :=
  s.registerDoneRR = false ∨ s.registerReadyRR = true ∨ i.wbDatI = s.userDataOutReg

theorem Delivered.wb {initVal : BitVec 32} {tr : Trace} (h : Delivered tr)
    (hphase : tr.regs.handshake.InPhase) {i : WbIn} (hrst : i.wbRst = false)
    (hhears : tr.regs.writes i = true → tr.regs.Hears i) :
    Delivered (tr.step initVal (.wb i)) := by
  unfold Delivered
  show (if tr.regs.writes i then tr.written ++ [i.wbDatI] else tr.written) ≠ [] →
    tr.regs.userDataOutReg =
      (if i.wbRst then initVal else if tr.regs.writes i then i.wbDatI else tr.regs.regBuffer) ∨
    (if tr.regs.registerDoneRR then false else if i.wbRst then false
      else if tr.regs.writes i then true else tr.regs.registerReady) = true ∨
    tr.regs.registerReadyR = true ∨ tr.regs.registerReadyRR = true
  rw [hrst]
  cases hw : tr.regs.writes i with
  | true =>
    intro _
    rcases hhears hw with hdone | hRR | hdat
    · rw [hdone]
      exact Or.inr (Or.inl rfl)
    · exact Or.inr (Or.inr (Or.inr hRR))
    · exact Or.inl hdat.symm
  | false =>
    intro hne
    rcases h hne with hout | hready | hR
    · exact Or.inl hout
    · cases hdone : tr.regs.registerDoneRR with
      | true => exact Or.inr (Or.inr (Or.inr (hphase.settled hready hdone).2.1))
      | false => exact Or.inr (Or.inl hready)
    · exact Or.inr (Or.inr hR)

theorem Delivered.user {initVal : BitVec 32} {tr : Trace} (h : Delivered tr) :
    Delivered (tr.step initVal .user) := by
  unfold Delivered
  show tr.written ≠ [] →
    (if tr.regs.registerReadyRR then tr.regs.regBuffer else tr.regs.userDataOutReg) =
      tr.regs.regBuffer ∨ tr.regs.registerReady = true ∨ tr.regs.registerReady = true ∨
      tr.regs.registerReadyR = true
  intro hne
  cases hRR : tr.regs.registerReadyRR with
  | true => exact Or.inl rfl
  | false =>
    rcases h hne with hout | hready | hR | hRR'
    · exact Or.inl hout
    · exact Or.inr (Or.inl hready)
    · exact Or.inr (Or.inr (Or.inr hR))
    · rw [hRR] at hRR'
      cases hRR'

/-- No edge of the list resets the register. -/
def NoReset (es : List Edge) : Prop := ∀ i, Edge.wb i ∈ es → i.wbRst = false

/-- No edge of the list writes to it. -/
def Quiet (es : List Edge) : Prop := ∀ i, Edge.wb i ∈ es → i.wbRst = false ∧ i.wbWe = false

theorem writes_of_quiet (s : Regs) {i : WbIn} (h : i.wbWe = false) : s.writes i = false := by
  unfold Regs.writes
  rw [h, Bool.and_false]

theorem run_append (initVal out : BitVec 32) (es : List Edge) (e : Edge) :
    run initVal out (es ++ [e]) = (run initVal out es).step initVal e := by
  unfold run
  rw [List.foldl_append]
  rfl

section

variable {initVal out : BitVec 32}

theorem run_ordered {es : List Edge} (hrst : NoReset es) :
    ∃ idx, Ordered (run initVal out es) idx := by
  induction es using List.reverseRecOn with
  | nil => exact ⟨[], reset_ordered initVal out⟩
  | append_singleton es e ih =>
    obtain ⟨idx, h⟩ := ih fun i hi => hrst i (List.mem_append_left _ hi)
    rw [run_append]
    cases e with
    | wb i => exact ⟨idx, h.wb (hrst i (by simp))⟩
    | user => exact h.user

/-- The buffer holds the value written last. -/
theorem run_regBuffer {es : List Edge} (hrst : NoReset es) :
    (run initVal out es).regs.regBuffer = (run initVal out es).written.getLastD initVal := by
  induction es using List.reverseRecOn with
  | nil => rfl
  | append_singleton es e ih =>
    have h := ih fun i hi => hrst i (List.mem_append_left _ hi)
    rw [run_append]
    cases e with
    | wb i =>
      show (if i.wbRst then _ else if (run initVal out es).regs.writes i then _ else _)
        = (if (run initVal out es).regs.writes i then _ else _ : List (BitVec 32)).getLastD initVal
      rw [hrst i (by simp), if_neg Bool.false_ne_true]
      split
      · rw [List.getLastD_concat]
      · exact h
    | user => exact h

/-- **A read gives back the value written last**, whether or not the fabric has it. -/
theorem run_wbDatO {es : List Edge} (hrst : NoReset es)
    (hack : (run initVal out es).regs.wbAckReg = true) :
    (run initVal out es).regs.wbDatO = (run initVal out es).written.getLastD initVal := by
  rw [Regs.wbDatO, hack, ← run_regBuffer hrst]
  rfl

/-- Every write of the run is made at a time when it reaches the fabric. -/
def Heard (initVal out : BitVec 32) (es : List Edge) : Prop :=
  ∀ p i, p ++ [Edge.wb i] <+: es → (run initVal out p).regs.writes i = true →
    (run initVal out p).regs.Hears i

theorem run_delivered {es : List Edge} (hrst : NoReset es) (hheard : Heard initVal out es) :
    Delivered (run initVal out es) := by
  induction es using List.reverseRecOn with
  | nil =>
    intro hne
    exact absurd rfl hne
  | append_singleton es e ih =>
    have hrst' : NoReset es := fun i hi => hrst i (List.mem_append_left _ hi)
    have h := ih hrst' fun p i hp => hheard p i (hp.trans ( List.prefix_append es [e]))
    rw [run_append]
    cases e with
    | wb i =>
      obtain ⟨idx, hord⟩ : ∃ idx, Ordered (run initVal out es) idx := run_ordered hrst'
      exact h.wb hord.phase (hrst i (by simp)) (hheard es i ( List.prefix_refl _))
    | user => exact h.user

/-! ## Loss -/

/-- The fabric's value stays as long as nothing is written. -/
def Stuck (v : BitVec 32) (s : Regs) : Prop :=
  s.userDataOutReg = v ∧ s.registerReady = false ∧ s.registerReadyR = false ∧
    s.registerReadyRR = false

/-- A write that is not heard leaves the fabric with its old value. -/
theorem stuck_of_not_hears {s : Regs} (hphase : s.handshake.InPhase) {i : WbIn}
    (hnot : ¬s.Hears i) : Stuck s.userDataOutReg (s.wbEdge initVal i) ∧
      i.wbDatI ≠ s.userDataOutReg := by
  unfold Regs.Hears at hnot
  simp only [not_or, Bool.not_eq_false, Bool.not_eq_true] at hnot
  obtain ⟨hdone, hRR, hdat⟩ := hnot
  obtain ⟨-, hR⟩ := hphase.over hdone hRR
  refine ⟨⟨rfl, ?_, hR, hRR⟩, hdat⟩
  show (if s.registerDoneRR then false else _) = false
  rw [if_pos hdone]

/-- An edge without a write keeps it so. -/
theorem Stuck.step {v : BitVec 32} {tr : Trace} (h : Stuck v tr.regs) {e : Edge}
    (hquiet : Quiet [e]) :
    Stuck v (tr.step initVal e).regs ∧ (tr.step initVal e).written = tr.written := by
  obtain ⟨hout, hready, hR, hRR⟩ := h
  cases e with
  | user =>
    refine ⟨⟨?_, hready, hready, hR⟩, rfl⟩
    show (if tr.regs.registerReadyRR then _ else _) = v
    rw [hRR]
    exact hout
  | wb i =>
    obtain ⟨hrst, hwe⟩ := hquiet i List.mem_cons_self
    have hw := writes_of_quiet tr.regs hwe
    refine ⟨⟨hout, ?_, hR, hRR⟩, ?_⟩
    · show (if tr.regs.registerDoneRR then false else if i.wbRst then false
        else if tr.regs.writes i then true else tr.regs.registerReady) = false
      rw [hrst, hw, hready]
      exact ite_self false
    · show (if tr.regs.writes i then _ else _) = _
      rw [hw]
      rfl

theorem Stuck.run {v : BitVec 32} : ∀ (qs : List Edge) {tr : Trace}, Stuck v tr.regs → Quiet qs →
    Stuck v (qs.foldl (Trace.step initVal) tr).regs ∧
      (qs.foldl (Trace.step initVal) tr).written = tr.written
  | [], _, h, _ => ⟨h, rfl⟩
  | e :: qs, tr, h, hquiet => by
    have hone : Quiet [e] := by
      intro i hi
      exact hquiet i (List.mem_cons.mpr (Or.inl (List.mem_singleton.mp hi)))
    obtain ⟨hstep, hwritten⟩ : Stuck v (tr.step initVal e).regs ∧
        (tr.step initVal e).written = tr.written := h.step hone
    obtain ⟨hrun, hwritten'⟩ := Stuck.run qs hstep fun i hi => hquiet i (List.mem_cons_of_mem _ hi)
    exact ⟨hrun, hwritten'.trans hwritten⟩

/-- A bus cycle without a strobe. -/
def idle : WbIn := ⟨false, false, false, false, 0⟩

/-- Enough edges for any hand-shake to end. -/
def settle : List Edge :=
  [.user, .user, .user, .wb idle, .wb idle, .wb idle,
    .user, .user, .user, .wb idle, .wb idle, .wb idle]

theorem settle_quiet : Quiet settle := by
  intro i hi
  have hidle : i = idle := by simpa [settle] using hi
  rw [hidle]
  exact ⟨rfl, rfl⟩

theorem settle_atRest (tr : Trace) : (settle.foldl (Trace.step initVal) tr).regs.AtRest := by
  obtain ⟨⟨buf, ready, ack, doneR, doneRR, readyR, readyRR, done, out⟩, written, taken⟩ := tr
  cases ready <;> cases doneR <;> cases doneRR <;> cases readyR <;> cases readyRR <;>
    cases done <;> cases ack <;> exact ⟨rfl, rfl, rfl, rfl, rfl, rfl⟩

/-! ## Both -/

/--
After the run and as long as nothing more is written, the fabric's value is the one written last
whenever the hand-shake is at rest, and so is the one a bus read returns.
-/
def ReachesFabric (initVal out : BitVec 32) (es : List Edge) : Prop :=
  ∀ qs, Quiet qs → (run initVal out (es ++ qs)).regs.AtRest →
    ∀ v, (run initVal out (es ++ qs)).written.getLast? = some v →
      (run initVal out (es ++ qs)).regs.userDataOutReg = v ∧
      (run initVal out (es ++ qs)).regs.regBuffer = v

/-- The values the fabric takes are values written, in the order they were written. -/
def InOrder (tr : Trace) : Prop :=
  ∃ idx : List Nat, idx.Pairwise (· ≤ ·) ∧
    List.Forall₂ (fun v i => tr.written[i]? = some v) tr.taken idx

theorem heard_append {p qs : List Edge} (hheard : Heard initVal out p) (hquiet : Quiet qs) :
    Heard initVal out (p ++ qs) := by
  intro p' i hp' hw
  rcases List.prefix_or_prefix_of_prefix hp' ( List.prefix_append p qs) with hle | ⟨r, hr⟩
  · exact hheard p' i hle hw
  · rcases List.eq_nil_or_concat r with rfl | ⟨r, e, rfl⟩
    · rw [List.append_nil] at hr
      exact hheard p' i (hr ▸ List.prefix_refl _) hw
    · -- the write would be one of the quiet edges
      obtain ⟨t, ht⟩ := hp'
      rw [← hr, List.append_assoc] at ht
      have hqs := List.append_cancel_left ht
      rw [List.concat_eq_append, ← List.append_assoc] at hr
      obtain ⟨-, he⟩ := List.append_inj' hr rfl
      have hmem : Edge.wb i ∈ qs := by
        rw [← hqs, List.concat_eq_append, ← (List.cons.inj he).1]
        simp
      rw [writes_of_quiet _ (hquiet i hmem).2] at hw
      cases hw

/-- If every write is heard, all of them reach the fabric. -/
theorem reachesFabric_of_heard {es : List Edge} (hrst : NoReset es)
    (hheard : Heard initVal out es) : ReachesFabric initVal out es := by
  intro qs hquiet hrest v hv
  have hrst' : NoReset (es ++ qs) := by
    intro i hi
    rcases List.mem_append.mp hi with hi | hi
    · exact hrst i hi
    · exact (hquiet i hi).1
  obtain ⟨idx, hord⟩ : ∃ idx, Ordered (run initVal out (es ++ qs)) idx := run_ordered hrst'
  have hdel := run_delivered hrst' (heard_append hheard hquiet)
  have hne : (run initVal out (es ++ qs)).written ≠ [] := by
    intro hnil
    rw [hnil] at hv
    cases hv
  have hbuf : (run initVal out (es ++ qs)).regs.regBuffer = v := by
    have hlast := hord.buffer hne
    rw [hv] at hlast
    exact (Option.some.inj hlast).symm
  obtain ⟨hready, -, hR, hRR, -, -⟩ := hrest
  rw [← hbuf]
  refine ⟨?_, rfl⟩
  rcases hdel hne with hout | hreq | hreq | hreq
  · exact hout
  · rw [hready] at hreq
    cases hreq
  · rw [hR] at hreq
    cases hreq
  · rw [hRR] at hreq
    cases hreq

/-- A write that reaches the fabric has been heard. -/
theorem hears_of_reachesFabric {p : List Edge} {i : WbIn} (hrst : NoReset (p ++ [.wb i]))
    (hw : (run initVal out p).regs.writes i = true)
    (hreach : ReachesFabric initVal out (p ++ [.wb i])) : (run initVal out p).regs.Hears i := by
  by_contra hnot
  obtain ⟨idx, hord⟩ : ∃ idx, Ordered (run initVal out p) idx :=
    run_ordered fun j hj => hrst j (List.mem_append_left _ hj)
  obtain ⟨hstuck, hne⟩ : Stuck (run initVal out p).regs.userDataOutReg
      ((run initVal out p).regs.wbEdge initVal i) ∧ _ := stuck_of_not_hears hord.phase hnot
  have hstuck' : Stuck (run initVal out p).regs.userDataOutReg
      (run initVal out (p ++ [.wb i])).regs := by
    rw [run_append]
    exact hstuck
  have hrun : ∀ qs, run initVal out (p ++ [.wb i] ++ qs) =
      qs.foldl (Trace.step initVal) (run initVal out (p ++ [.wb i])) := fun qs => List.foldl_append
  obtain ⟨⟨hout, -⟩, hwritten⟩ : Stuck (run initVal out p).regs.userDataOutReg
      (run initVal out (p ++ [.wb i] ++ settle)).regs ∧
      (run initVal out (p ++ [.wb i] ++ settle)).written =
        (run initVal out (p ++ [.wb i])).written := by
    rw [hrun]
    exact hstuck'.run settle settle_quiet
  have hlast : (run initVal out (p ++ [.wb i] ++ settle)).written.getLast? = some i.wbDatI := by
    rw [hwritten, run_append]
    have hstep : ((run initVal out p).step initVal (.wb i)).written =
        (run initVal out p).written ++ [i.wbDatI] := by
      show (if (run initVal out p).regs.writes i then _ else _) = _
      rw [hw]
      rfl
    rw [hstep, List.getLast?_concat]
  have hrest : (run initVal out (p ++ [.wb i] ++ settle)).regs.AtRest := by
    rw [hrun]
    exact settle_atRest _
  obtain ⟨heq, -⟩ := hreach settle settle_quiet hrest i.wbDatI hlast
  rw [hout] at heq
  exact hne heq.symm

/--
**No acknowledged write is lost to the fabric if and only if every write is made while the last
acknowledgement is down or the fabric side still sees the last request.**

This is for every order of the edges of the two clocks after a reset and any bus cycles.  The values
the fabric takes are in order in any case.
-/
theorem writes_reach_fabric_iff {es : List Edge} (hrst : NoReset es) :
    ((∀ p, p <+: es → ReachesFabric initVal out p) ∧ InOrder (run initVal out es)) ↔
      Heard initVal out es := by
  constructor
  · rintro ⟨hreach, -⟩ p i hp hw
    have hrst' : NoReset (p ++ [.wb i]) := fun j hj => hrst j (hp.subset hj)
    exact hears_of_reachesFabric hrst' hw (hreach _ hp)
  · intro hheard
    refine ⟨?_, ?_⟩
    · intro p hp
      exact reachesFabric_of_heard (fun i hi => hrst i (hp.subset hi))
        fun p' i hp' => hheard p' i (hp'.trans hp)
    · obtain ⟨idx, hord⟩ : ∃ idx, Ordered (run initVal out es) idx := run_ordered hrst
      exact ⟨idx, hord.sorted, hord.taken⟩

/-- A bus cycle that writes a value. -/
def write (v : BitVec 32) : WbIn := ⟨false, true, true, true, v⟩

theorem heard_nil : Heard initVal out [] :=
  fun p i hp => absurd (List.prefix_nil.mp hp) (by simp)

theorem heard_concat {es : List Edge} {i : WbIn} (h : Heard initVal out es)
    (hi : (run initVal out es).regs.writes i = true → (run initVal out es).regs.Hears i) :
    Heard initVal out (es ++ [.wb i]) := by
  intro p j hp hw
  rcases List.prefix_concat_iff.mp hp with heq | hle
  · obtain ⟨rfl, hij⟩ := List.append_inj' heq rfl
    cases hij
    exact hi hw
  · exact h p j hle hw

/-- Two writes, the second when the hand-shake of the first is over. -/
def twoWrites : List Edge := [Edge.wb (write 1)] ++ settle ++ [Edge.wb (write 2)]

/-- Both of them reach the fabric. -/
theorem writes_reach_fabric_twice :
    (∀ p, p <+: twoWrites → ReachesFabric 0 0 p) ∧ InOrder (run 0 0 twoWrites) := by
  have hrst : NoReset twoWrites := by
    intro i hi
    have hcases : i = write 1 ∨ i = idle ∨ i = write 2 := by
      simp [twoWrites, settle] at hi
      tauto
    rcases hcases with rfl | rfl | rfl <;> rfl
  have hheard : Heard 0 0 twoWrites := by
    have hfirst : Heard 0 0 [Edge.wb (write 1)] := heard_concat heard_nil fun _ => .inl rfl
    exact heard_concat (heard_append hfirst settle_quiet) fun _ => .inl rfl
  exact (writes_reach_fabric_iff hrst).mpr hheard

end

/-- A second write while `register_done` is still up, after `register_ready` has been seen low. -/
def lateWrite : List Edge :=
  [.wb (write 1), .user, .user, .user, .wb idle, .wb idle, .wb idle, .user, .user, .wb (write 2)]

/-- It is lost: when the hand-shake is over the fabric still has the first value. -/
theorem lateWrite_lost : NoReset lateWrite ∧
    ¬((∀ p, p <+: lateWrite → ReachesFabric 0 0 p) ∧ InOrder (run 0 0 lateWrite)) := by
  constructor
  · intro i hi
    have hcases : i = write 1 ∨ i = idle ∨ i = write 2 := by
      simp [lateWrite] at hi
      tauto
    rcases hcases with rfl | rfl | rfl <;> rfl
  · rintro ⟨hreach, -⟩
    have hrest : (run 0 0 (lateWrite ++ settle)).regs.AtRest := ⟨rfl, rfl, rfl, rfl, rfl, rfl⟩
    have hlast : (run 0 0 (lateWrite ++ settle)).written.getLast? = some 2 := rfl
    obtain ⟨hout, -⟩ := hreach lateWrite ( List.prefix_refl _) settle settle_quiet hrest 2 hlast
    have hkeeps : (run 0 0 (lateWrite ++ settle)).regs.userDataOutReg = 1 := rfl
    rw [hkeeps] at hout
    exact absurd hout (by decide)

end Ppc2Simulink

end MlibDevel.Wishbone
