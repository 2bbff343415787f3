import MlibDevel.TenGbe.RxCpu

/-!
# The handshake of the receive buffer (`wb_attach.v`, `tge_rx.v`)

The size of a frame for the CPU crosses from `mac_clk` to `cpu_clk` behind a ready flag; the CPU
acknowledges it by writing zero to the size register, and the acknowledgement crosses back.

`cpu_rx_ack` is to stand until the size is gone, but it is the transmit size that is looked at.  So
the handshake works as long as there is a transmit size until the receive size is gone
(`run_faithful`).
-/

namespace MlibDevel.TenGbe

/-! ## The two sides -/

/-- A write to `REG_TX_RX_BUF`. -/
structure BufWrite where
  wbSel : BitVec 4
  wbDat : BitVec 32
  deriving DecidableEq, Repr

/-- The inputs at an edge of `cpu_clk`. -/
structure CpuIn where
  write : Option BufWrite
  cpuTxDone : Bool
  deriving DecidableEq, Repr

/-- The machine on the side of the MAC, with the registers on the side of the CPU. -/
structure RxShake where
  mac : RxCpu
  cpuRxAckReg : Bool
  cpuTxSizeReg : BitVec 8
  cpuBufReadyR : Bool
  cpuBufReadyRR : Bool
  cpuSizeStable : BitVec 8
  deriving DecidableEq, Repr

/-- The write of zero to the receive size: the CPU acknowledges the frame. -/
def CpuIn.acks (i : CpuIn) : Bool :=
  match i.write with
  | some w => w.wbSel.getLsbD 0 && w.wbDat.extractLsb' 0 8 == 0
  | none => false

/-- A new transmit size. -/
def CpuIn.txSize (i : CpuIn) : Option (BitVec 8) :=
  match i.write with
  | some w => if w.wbSel.getLsbD 2 then some (w.wbDat.extractLsb' 16 8) else none
  | none => none

namespace RxShake

/-- All registers at zero. -/
def powerUp : RxShake where
  mac := ⟨.buffering, 0, false, false, 0, false, false, false⟩
  cpuRxAckReg := false
  cpuTxSizeReg := 0
  cpuBufReadyR := false
  cpuBufReadyRR := false
  cpuSizeStable := 0

/-- The receive size in `REG_TX_RX_BUF`, as the CPU reads it. -/
def readSize (s : RxShake) : BitVec 8 := if s.cpuRxAckReg then 0 else s.cpuSizeStable

/-- An edge of `cpu_clk`; of several assignments the last one counts. -/
def cpuEdge (s : RxShake) (i : CpuIn) : RxShake where
  mac := s.mac
  cpuRxAckReg := if i.acks then true else if s.cpuTxSizeReg == 0 then false else s.cpuRxAckReg
  cpuTxSizeReg := i.txSize.getD (if i.cpuTxDone then 0 else s.cpuTxSizeReg)
  cpuBufReadyR := s.mac.cpuBufReady
  cpuBufReadyRR := s.cpuBufReadyR
  cpuSizeStable := if s.cpuBufReadyRR then s.mac.cpuSize else s.cpuSizeStable

/-- An edge of `mac_clk`. -/
def macEdge (s : RxShake) (frame : RxFrame) : RxShake :=
  { s with mac := s.mac.edge frame s.cpuRxAckReg }

/-- A frame is handed over at the next edge of `mac_clk`. -/
def handsOver (s : RxShake) : Bool := s.mac.cpuState == .wait && s.mac.cpuBufferFree

/-- The buffer is freed at the next edge of `mac_clk`. -/
def frees (s : RxShake) : Bool := s.mac.cpuAckRR && s.mac.cpuSize != 0

end RxShake

/-! ## Runs -/

/-- An edge of one of the clocks, in any order. -/
inductive ShakeEdge
  | cpu (i : CpuIn)
  | mac (frame : RxFrame)
  deriving DecidableEq, Repr

/-- The handshake and what has been seen of it. -/
structure ShakeWatch where
  shake : RxShake
  /-- the sizes of the frames handed over -/
  handed : List (BitVec 8)
  /-- the sizes that the CPU could read when it acknowledged them -/
  acked : List (BitVec 8)
  /-- how often the buffer was freed -/
  freed : Nat
  /-- the edges of `cpu_clk` since a frame was handed over -/
  since : Nat
  deriving DecidableEq, Repr

namespace ShakeWatch

/-- Nothing has been seen. -/
def start : ShakeWatch := ⟨.powerUp, [], [], 0, 0⟩

/-- An edge. -/
def step (w : ShakeWatch) : ShakeEdge → ShakeWatch
  | .cpu i =>
    { w with
      shake := w.shake.cpuEdge i
      acked := if i.acks then w.acked ++ [w.shake.readSize] else w.acked
      since := w.since + 1 }
  | .mac frame =>
    { w with
      shake := w.shake.macEdge frame
      handed := if w.shake.handsOver then w.handed ++ [w.shake.mac.cpuAddr] else w.handed
      freed := if w.shake.frees then w.freed + 1 else w.freed
      since := if w.shake.handsOver then 0 else w.since }

/-- The state after some edges. -/
def run (w : ShakeWatch) (es : List ShakeEdge) : ShakeWatch := es.foldl step w

/-- What the handshake is for. -/
structure Faithful (w : ShakeWatch) : Prop where
  /-- an acknowledgement that is over has freed the buffer once -/
  freedOnce : w.freed ≤ w.acked.length ∧ w.acked.length ≤ w.freed + 1 ∧
    (w.shake.cpuRxAckReg = false → w.freed = w.acked.length)
  /-- the frames are acknowledged one after the other, with their own sizes -/
  inOrder : w.acked <+: w.handed ∧ w.handed.length ≤ w.acked.length + 1
  /-- what the CPU reads is the size of a frame that it has not acknowledged, or zero -/
  own : w.shake.readSize ≠ 0 → w.handed = w.acked ++ [w.shake.readSize]
  /-- a frame handed over can be read after three edges of `cpu_clk` -/
  seen : w.acked.length < w.handed.length → 3 ≤ w.since → w.shake.readSize ≠ 0

/--
What the handshake needs: a frame that is handed over has words, the CPU acknowledges only what it
reads, and while an acknowledgement stands, there is a transmit size or the receive size is gone.
-/
def Careful (s : RxShake) : ShakeEdge → Prop
  | .cpu i => (i.acks = true → s.readSize ≠ 0) ∧
    (s.cpuRxAckReg = true → s.cpuTxSizeReg = 0 → s.cpuSizeStable = 0)
  | .mac _ => s.handsOver = true → s.mac.cpuAddr ≠ 0

/-- All edges of a run are careful. -/
def AllCareful : ShakeWatch → List ShakeEdge → Prop
  | _, [] => True
  | w, e :: es => Careful w.shake e ∧ AllCareful (w.step e) es

instance (s : RxShake) : ∀ e : ShakeEdge, Decidable (Careful s e)
  | .cpu _ => inferInstanceAs (Decidable (_ ∧ _))
  | .mac _ => inferInstanceAs (Decidable (_ → _))

instance decidableAllCareful : ∀ (es : List ShakeEdge) (w : ShakeWatch), Decidable (AllCareful w es)
  | [], _ => isTrue trivial
  | e :: es, w => @instDecidableAnd _ _ _ (decidableAllCareful es (w.step e))

/-! ## The phases -/

/-- The four phases of the handshake. -/
inductive Phase (w : ShakeWatch) : Prop
  /-- no frame, no acknowledgement; the last one may still be on its way through the registers -/
  | idle (ack : w.shake.cpuRxAckReg = false) (size : w.shake.mac.cpuSize = 0)
    (ready : w.shake.mac.cpuBufReady = false)
    (falls : w.shake.mac.cpuAckR = true → w.shake.mac.cpuAckRR = true)
    (readyR : w.shake.cpuBufReadyR = false) (readyRR : w.shake.cpuBufReadyRR = false)
    (stable : w.shake.cpuSizeStable = 0) (handed : w.handed = w.acked)
    (freed : w.freed = w.acked.length)
  /-- a frame is handed over, and its size gets to the CPU -/
  | full (ack : w.shake.cpuRxAckReg = false) (size : w.shake.mac.cpuSize ≠ 0)
    (ready : w.shake.mac.cpuBufReady = true) (ackR : w.shake.mac.cpuAckR = false)
    (ackRR : w.shake.mac.cpuAckRR = false)
    (readyR : 1 ≤ w.since → w.shake.cpuBufReadyR = true)
    (readyRR : 2 ≤ w.since → w.shake.cpuBufReadyRR = true)
    (rises : w.shake.cpuBufReadyRR = true → w.shake.cpuBufReadyR = true)
    (stable : w.shake.cpuSizeStable = 0 ∨
      w.shake.cpuSizeStable = w.shake.mac.cpuSize ∧ w.shake.cpuBufReadyRR = true)
    (seen : 3 ≤ w.since → w.shake.cpuSizeStable ≠ 0)
    (handed : w.handed = w.acked ++ [w.shake.mac.cpuSize]) (freed : w.freed = w.acked.length)
  /-- the CPU has acknowledged the frame -/
  | acked (ack : w.shake.cpuRxAckReg = true) (size : w.shake.mac.cpuSize ≠ 0)
    (ready : w.shake.mac.cpuBufReady = true)
    (rises : w.shake.mac.cpuAckRR = true → w.shake.mac.cpuAckR = true)
    (readyR : w.shake.cpuBufReadyR = true) (readyRR : w.shake.cpuBufReadyRR = true)
    (stable : w.shake.cpuSizeStable = w.shake.mac.cpuSize) (handed : w.handed = w.acked)
    (freed : w.freed + 1 = w.acked.length)
  /-- the buffer is free, and the size is cleared -/
  | clearing (ack : w.shake.cpuRxAckReg = true) (size : w.shake.mac.cpuSize = 0)
    (ready : w.shake.mac.cpuBufReady = false) (ackR : w.shake.mac.cpuAckR = true)
    (ackRR : w.shake.mac.cpuAckRR = true)
    (stable : w.shake.cpuBufReadyRR = true ∧ w.shake.cpuSizeStable ≠ 0 ∨
      w.shake.cpuBufReadyR = false ∧ w.shake.cpuSizeStable = 0)
    (handed : w.handed = w.acked) (freed : w.freed = w.acked.length)

variable {w : ShakeWatch}

theorem start_phase : start.Phase :=
  .idle rfl rfl rfl (fun h => h) rfl rfl rfl rfl rfl

/-- Without a frame for the CPU there is nothing to read. -/
theorem Faithful.of_none (hread : w.shake.readSize = 0) (handed : w.handed = w.acked)
    (hle : w.freed ≤ w.acked.length) (hlt : w.acked.length ≤ w.freed + 1)
    (hdown : w.shake.cpuRxAckReg = false → w.freed = w.acked.length) : Faithful w where
  freedOnce := ⟨hle, hlt, hdown⟩
  inOrder := by
    rw [handed]
    exact ⟨List.prefix_refl _, Nat.le_succ _⟩
  own hne := absurd hread hne
  seen hmore := by
    rw [handed] at hmore
    exact absurd hmore (Nat.lt_irrefl _)

/-- In every phase the handshake does what it is for. -/
theorem Phase.faithful (h : Phase w) : Faithful w := by
  cases h with
  | idle ack size ready falls readyR readyRR stable handed freed =>
    have hread : w.shake.readSize = 0 := by
      rw [RxShake.readSize, ack, stable]
      rfl
    exact .of_none hread handed (by omega) (by omega) fun _ => freed
  | full ack size ready ackR ackRR readyR readyRR rises stable seen handed freed =>
    have hread : w.shake.readSize = w.shake.cpuSizeStable := by
      rw [RxShake.readSize, ack]
      rfl
    refine ⟨⟨by omega, by omega, fun _ => freed⟩, ⟨?_, ?_⟩, ?_, ?_⟩
    · rw [handed]
      exact List.prefix_append _ _
    · exact Nat.le_of_eq (by rw [handed, List.length_append, List.length_singleton])
    · intro hne
      rw [hread] at hne ⊢
      rcases stable with hzero | ⟨hsize, -⟩
      · exact absurd hzero hne
      · rw [handed, hsize]
    · intro _ hsince
      rw [hread]
      exact seen hsince
  | acked ack size ready rises readyR readyRR stable handed freed =>
    have hread : w.shake.readSize = 0 := by
      rw [RxShake.readSize, ack]
      rfl
    exact .of_none hread handed (by omega) (by omega) fun hdown => by
      rw [ack] at hdown
      cases hdown
  | clearing ack size ready ackR ackRR stable handed freed =>
    have hread : w.shake.readSize = 0 := by
      rw [RxShake.readSize, ack]
      rfl
    exact .of_none hread handed (by omega) (by omega) fun _ => freed

/-! ## The edges of `mac_clk` -/

/-- While a size stands, no frame is handed over. -/
theorem handsOver_of_size (h : w.shake.mac.cpuSize ≠ 0) : w.shake.handsOver = false := by
  have hsize : (w.shake.mac.cpuSize == 0#8) = false := beq_eq_false_iff_ne.mpr h
  rw [RxShake.handsOver, RxCpu.cpuBufferFree, hsize, Bool.false_and, Bool.and_false]

/-- While the acknowledgement is seen, no frame is handed over. -/
theorem handsOver_of_ack (h : w.shake.mac.cpuAckRR = true) : w.shake.handsOver = false := by
  simp [RxShake.handsOver, RxCpu.cpuBufferFree, h]

/-- An edge at which no frame is handed over. -/
theorem mac_step_of_keep (frame : RxFrame) (h : w.shake.handsOver = false) :
    let w' := w.step (.mac frame)
    w'.shake.mac.cpuSize = (if w.shake.mac.cpuAckRR then 0 else w.shake.mac.cpuSize) ∧
      w'.shake.mac.cpuBufReady
        = (if w.shake.mac.cpuAckRR then false else w.shake.mac.cpuBufReady) ∧
      w'.handed = w.handed ∧ w'.since = w.since := by
  have hswap : (w.shake.mac.cpuState == .wait && w.shake.mac.cpuBufferFree) = false := h
  simp [step, RxShake.macEdge, RxCpu.edge, hswap, h]

/-- An edge of `mac_clk` leads to the same phase or to the next one. -/
theorem Phase.mac_step (h : Phase w) (frame : RxFrame) (hcareful : Careful w.shake (.mac frame)) :
    Phase (w.step (.mac frame)) := by
  cases h with
  | idle ack size ready falls readyR readyRR stable handed freed =>
    have hfrees : w.shake.frees = false := by
      rw [RxShake.frees, size]
      simp
    have hfreed : (w.step (.mac frame)).freed = w.freed := by
      simp [step, hfrees]
    cases hswap : w.shake.handsOver with
    | true =>
      have hswap' : (w.shake.mac.cpuState == .wait && w.shake.mac.cpuBufferFree) = true := hswap
      have hackRR : w.shake.mac.cpuAckRR = false := by
        rw [← Bool.not_eq_true]
        intro hup
        rw [handsOver_of_ack hup] at hswap
        cases hswap
      have hackR : w.shake.mac.cpuAckR = false := by
        rw [← Bool.not_eq_true]
        intro hup
        rw [falls hup] at hackRR
        cases hackRR
      have hsize : (w.step (.mac frame)).shake.mac.cpuSize = w.shake.mac.cpuAddr := by
        simp [step, RxShake.macEdge, RxCpu.edge, hswap']
      have hsince : (w.step (.mac frame)).since = 0 := by
        simp [step, hswap]
      refine .full ack ?_ ?_ ack hackR ?_ ?_ ?_ (Or.inl stable) ?_ ?_ (hfreed.trans freed)
      · rw [hsize]
        exact hcareful hswap
      · simp [step, RxShake.macEdge, RxCpu.edge, hswap']
      · rw [hsince]
        omega
      · rw [hsince]
        omega
      · intro hup
        exact absurd (readyRR.symm.trans hup) (by simp)
      · rw [hsince]
        omega
      · rw [hsize]
        simp [step, hswap, handed]
    | false =>
      obtain ⟨hsize, hready, hhanded, -⟩ := mac_step_of_keep frame hswap
      refine .idle ack ?_ ?_ ?_ readyR readyRR stable (hhanded.trans handed) (hfreed.trans freed)
      · rw [hsize, size, ite_self]
      · rw [hready, ready, ite_self]
      · intro hup
        exact absurd (ack.symm.trans hup) (by simp)
  | full ack size ready ackR ackRR readyR readyRR rises stable seen handed freed =>
    obtain ⟨hsize, hready, hhanded, hsince⟩ := mac_step_of_keep frame (handsOver_of_size size)
    rw [ackRR, if_neg (by simp)] at hsize hready
    have hfreed : (w.step (.mac frame)).freed = w.freed := by
      simp [step, RxShake.frees, ackRR]
    refine .full ack ?_ (hready.trans ready) ack ackR ?_ ?_ rises ?_ ?_ ?_ (hfreed.trans freed)
    · rwa [hsize]
    · rwa [hsince]
    · rwa [hsince]
    · rwa [hsize]
    · rwa [hsince]
    · rw [hhanded, hsize]
      exact handed
  | acked ack size ready rises readyR readyRR stable handed freed =>
    obtain ⟨hsize, hready, hhanded, -⟩ := mac_step_of_keep frame (handsOver_of_size size)
    cases hackRR : w.shake.mac.cpuAckRR with
    | true =>
      rw [hackRR, if_pos rfl] at hsize hready
      have hfreed : (w.step (.mac frame)).freed = w.freed + 1 := by
        simpa [step, RxShake.frees, hackRR] using size
      exact .clearing ack hsize hready ack (rises hackRR)
        (Or.inl ⟨readyRR, by rwa [← stable] at size⟩) (hhanded.trans handed) (hfreed.trans freed)
    | false =>
      rw [hackRR, if_neg (by simp)] at hsize hready
      have hfreed : (w.step (.mac frame)).freed = w.freed := by
        simp [step, RxShake.frees, hackRR]
      refine .acked ack ?_ (hready.trans ready) (fun _ => ack) readyR readyRR ?_
        (hhanded.trans handed) ?_
      · rwa [hsize]
      · rwa [hsize]
      · rwa [hfreed]
  | clearing ack size ready ackR ackRR stable handed freed =>
    obtain ⟨hsize, hready, hhanded, -⟩ := mac_step_of_keep frame (handsOver_of_ack ackRR)
    have hfreed : (w.step (.mac frame)).freed = w.freed := by
      simp [step, RxShake.frees, size]
    refine .clearing ack ?_ ?_ ack ackR stable (hhanded.trans handed) (hfreed.trans freed)
    · rw [hsize, ackRR, if_pos rfl]
    · rw [hready, ackRR, if_pos rfl]

/-! ## The edges of `cpu_clk` -/

/-- An acknowledgement that is not asked for and not over stays as it is. -/
theorem cpu_step_ack (i : CpuIn) (hacks : i.acks = false) :
    (w.step (.cpu i)).shake.cpuRxAckReg
      = if w.shake.cpuTxSizeReg == 0 then false else w.shake.cpuRxAckReg := by
  simp [step, RxShake.cpuEdge, hacks]

/-- An edge of `cpu_clk` leads to the same phase or to the next one. -/
theorem Phase.cpu_step (h : Phase w) (i : CpuIn) (hcareful : Careful w.shake (.cpu i)) :
    Phase (w.step (.cpu i)) := by
  obtain ⟨hread, hover⟩ := hcareful
  cases h with
  | idle ack size ready falls readyR readyRR stable handed freed =>
    have hacks : i.acks = false := by
      rw [← Bool.not_eq_true]
      intro hup
      apply hread hup
      rw [RxShake.readSize, ack, stable]
      rfl
    have hacked : (w.step (.cpu i)).acked = w.acked := by
      simp [step, hacks]
    refine .idle ?_ size ready falls ready readyR ?_ ?_ ?_
    · rw [cpu_step_ack i hacks, ack, ite_self]
    · simp [step, RxShake.cpuEdge, readyRR, stable]
    · rw [hacked]
      exact handed
    · rw [hacked]
      exact freed
  | full ack size ready ackR ackRR readyR readyRR rises stable seen handed freed =>
    cases hacks : i.acks with
    | true =>
      -- what is acknowledged has been read
      have hne := hread hacks
      rw [RxShake.readSize, ack] at hne
      obtain ⟨hstable, hrr⟩ : w.shake.cpuSizeStable = w.shake.mac.cpuSize ∧
          w.shake.cpuBufReadyRR = true := by
        rcases stable with hzero | hsize
        · exact absurd hzero hne
        · exact hsize
      have hacked : (w.step (.cpu i)).acked = w.acked ++ [w.shake.mac.cpuSize] := by
        simp [step, hacks, RxShake.readSize, ack, hstable]
      refine .acked ?_ size ready ?_ ready (rises hrr) ?_ ?_ ?_
      · simp [step, RxShake.cpuEdge, hacks]
      · intro hup
        exact absurd (ackRR.symm.trans hup) (by simp)
      · simp [step, RxShake.cpuEdge, hrr]
      · rw [hacked]
        exact handed
      · rw [hacked, List.length_append, List.length_singleton, ← freed]
        rfl
    | false =>
      have hacked : (w.step (.cpu i)).acked = w.acked := by
        simp [step, hacks]
      have hsince : (w.step (.cpu i)).since = w.since + 1 := rfl
      refine .full ?_ size ready ackR ackRR (fun _ => ready) ?_ (fun _ => ready) ?_ ?_ ?_ ?_
      · rw [cpu_step_ack i hacks, ack, ite_self]
      · intro hle
        exact readyR (by omega)
      · cases hrr : w.shake.cpuBufReadyRR with
        | true =>
          refine Or.inr ⟨?_, rises hrr⟩
          simp [step, RxShake.cpuEdge, hrr]
        | false =>
          rcases stable with hzero | ⟨-, hup⟩
          · refine Or.inl ?_
            simp [step, RxShake.cpuEdge, hrr, hzero]
          · exact absurd (hrr.symm.trans hup) (by simp)
      · intro hle
        have hrr := readyRR (by omega)
        simpa [step, RxShake.cpuEdge, hrr] using size
      · rw [hacked]
        exact handed
      · rw [hacked]
        exact freed
  | acked ack size ready rises readyR readyRR stable handed freed =>
    have hacks : i.acks = false := by
      rw [← Bool.not_eq_true]
      intro hup
      apply hread hup
      rw [RxShake.readSize, ack]
      rfl
    have htx : (w.shake.cpuTxSizeReg == 0) = false := by
      rw [beq_eq_false_iff_ne]
      intro hzero
      exact size (stable.symm.trans (hover ack hzero))
    have hacked : (w.step (.cpu i)).acked = w.acked := by
      simp [step, hacks]
    refine .acked ?_ size ready rises ready readyR ?_ ?_ ?_
    · rw [cpu_step_ack i hacks, htx]
      exact ack
    · simp [step, RxShake.cpuEdge, readyRR]
    · rw [hacked]
      exact handed
    · rw [hacked]
      exact freed
  | clearing ack size ready ackR ackRR stable handed freed =>
    have hacks : i.acks = false := by
      rw [← Bool.not_eq_true]
      intro hup
      apply hread hup
      rw [RxShake.readSize, ack]
      rfl
    have hacked : (w.step (.cpu i)).acked = w.acked := by
      simp [step, hacks]
    have hstable : (w.step (.cpu i)).shake.cpuSizeStable = 0 := by
      show (if w.shake.cpuBufReadyRR then w.shake.mac.cpuSize else w.shake.cpuSizeStable) = 0
      rcases stable with ⟨hrr, -⟩ | ⟨-, hzero⟩
      · rw [if_pos hrr, size]
      · rw [size, hzero, ite_self]
    cases htx : w.shake.cpuTxSizeReg == 0 with
    | true =>
      -- the acknowledgement falls when the size is gone
      have hzero := hover ack (beq_iff_eq.mp htx)
      obtain ⟨-, hne⟩ | ⟨hr, -⟩ := stable
      · exact absurd hzero hne
      · refine .idle ?_ size ready (fun _ => ackRR) ready hr hstable ?_ ?_
        · rw [cpu_step_ack i hacks, htx, if_pos rfl]
        · rw [hacked]
          exact handed
        · rw [hacked]
          exact freed
    | false =>
      refine .clearing ?_ size ready ackR ackRR (Or.inr ⟨ready, hstable⟩) ?_ ?_
      · rw [cpu_step_ack i hacks, htx]
        exact ack
      · rw [hacked]
        exact handed
      · rw [hacked]
        exact freed

theorem Phase.step (h : Phase w) (e : ShakeEdge) (hcareful : Careful w.shake e) :
    Phase (w.step e) := by
  cases e with
  | cpu i => exact h.cpu_step i hcareful
  | mac frame => exact h.mac_step frame hcareful

/-! ## Runs -/

theorem Phase.run : ∀ (es : List ShakeEdge) (w : ShakeWatch), Phase w → AllCareful w es →
    Phase (w.run es)
  | [], _, h, _ => h
  | e :: es, w, h, ⟨he, hes⟩ => Phase.run es (w.step e) (h.step e he) hes

/--
**The handshake loses no frame and shows none twice.**

For every order of the edges of the two clocks, every frame and every access of the CPU: while the
edges are careful, the frames are acknowledged one after the other with their own sizes, each
acknowledgement frees the buffer once, and what can be read is zero or the size of a frame that is
not acknowledged yet.
-/
theorem run_faithful (es : List ShakeEdge) (h : AllCareful start es) : Faithful (start.run es) :=
  (start_phase.run es start h).faithful

/-- A frame of two words for the CPU. -/
def twoWords : List ShakeEdge :=
  [.mac ⟨⟨0, 0, false, false⟩, 0, false, false, 0, .data, true, false⟩,
    .mac ⟨⟨0, 0, false, false⟩, 0, true, false, 0, .data, true, false⟩]

/-- An edge of `mac_clk` between two frames. -/
def quietMac : ShakeEdge := .mac ⟨⟨0, 0, false, false⟩, 0, false, false, 0, .idle, false, false⟩

/-- An edge of `cpu_clk` with an access of the CPU. -/
def access (write : Option BufWrite) : ShakeEdge := .cpu ⟨write, false⟩

/-- A frame is read, and acknowledged while another one is sent. -/
def whileSending : List ShakeEdge :=
  twoWords ++ [quietMac, access none, access none, access none, access (some ⟨4, 0x50000⟩),
    access (some ⟨1, 0⟩), quietMac, quietMac, quietMac, access none, access none, .cpu ⟨none, true⟩,
    access none]

/-- A frame is read, and acknowledged while none is sent. -/
def whileIdle : List ShakeEdge :=
  twoWords ++ [quietMac, access none, access none, access none, access (some ⟨1, 0⟩), access none]

theorem run_faithful_whileSending :
    Faithful (start.run whileSending) ∧ (start.run whileSending).acked = [2] :=
  ⟨run_faithful whileSending (by decide), rfl⟩

/-- The acknowledgement falls before it has been seen, and the frame can be read once more. -/
theorem whileIdle_not_faithful : ¬Faithful (start.run whileIdle) := by
  intro h
  have hread : (start.run whileIdle).shake.readSize = 2 := rfl
  have hown := h.own (by rw [hread]; simp)
  rw [hread] at hown
  cases hown

end ShakeWatch

end MlibDevel.TenGbe
