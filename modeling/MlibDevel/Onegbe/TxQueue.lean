import MlibDevel.Onegbe.TxHeader

/-!
# Frames to send, and frames that are gone (`gbe_tx.v`)

An observer stands between the core and the MAC and writes down what goes through: what the
application puts into the FIFOs, what the CPU offers, and the bytes that the MAC takes, frame by
frame.

The books say that everything written belongs either to a frame that is gone or to one that waits.
-/

namespace MlibDevel.Onegbe

/-- A frame that the CPU offers: its size in words of eight bytes, and its half of the buffer. -/
structure CpuOffer where
  size : BitVec 11
  half : BitVec 11 → BitVec 8

/-- The first bytes of the buffer. -/
def CpuOffer.bytes (o : CpuOffer) : List (BitVec 8) :=
  (List.range (8 * o.size.toNat)).map fun k => o.half (BitVec.ofNat 11 k)

/-- A frame to send. -/
inductive Request
  | app (c : TxCtrl) (data : List (BitVec 8))
  | cpu (o : CpuOffer)

namespace Request

/-- The bytes of a frame. -/
def bytes (p : GbeTxParams) : Request → List (BitVec 8)
  | .app c data => p.frameHeader c ++ data
  | .cpu o => o.bytes

/-- Its entry in the control FIFO. -/
def ctrl : Request → List TxCtrl
  | .app c _ => [c]
  | .cpu _ => []

/-- Its bytes in the packet FIFO. -/
def data : Request → List (BitVec 8)
  | .app _ data => data
  | .cpu _ => []

/-- The offer of the CPU. -/
def offer : Request → List CpuOffer
  | .app _ _ => []
  | .cpu o => [o]

end Request

/-- The core, and what has been seen. -/
structure TxWatch where
  sys : GbeTxSys
  /-- the cycles for which data-valid has been high without an acknowledgement -/
  waited : Nat
  /-- the MAC takes a byte in each cycle -/
  taking : Bool
  /-- the bytes taken of a frame -/
  current : List (BitVec 8)
  /-- the frames taken -/
  frames : List (List (BitVec 8))
  /-- all that was written into the packet FIFO -/
  packetWritten : List (BitVec 8)
  /-- all that was written into the control FIFO -/
  ctrlWritten : List TxCtrl
  /-- all frames that the CPU has offered -/
  offered : List CpuOffer
  /-- the last of them -/
  offer : CpuOffer
  /-- the half of the buffer that is being sent -/
  sending : BitVec 11 → BitVec 8

namespace TxWatch

/-- The MAC takes a byte. -/
def takes (w : TxWatch) (i : GbeTxIn) : Bool :=
  w.sys.regs.macTxDvld && (i.macTxAck || w.taking)

/-- The CPU offers a frame. -/
def offers (w : TxWatch) (i : GbeTxIn) : Bool := i.cpuTxReady && !w.sys.regs.cpuTxReadyR

/-- What the CPU offers: the half of the buffer that is not being sent. -/
def newOffer (w : TxWatch) (i : GbeTxIn) : CpuOffer :=
  ⟨i.cpuTxSize, i.cpuBuffer (!w.sys.regs.cpuBufferSelReg)⟩

/-- A frame of the CPU is started. -/
def startsCpu (w : TxWatch) : Bool := w.sys.regs.txState == .idle && w.sys.regs.cpuStarts

/-- A clock cycle. -/
def step (p : GbeTxParams) (w : TxWatch) (i : GbeTxIn) : TxWatch where
  sys := w.sys.step p i
  waited := if w.sys.regs.macTxDvld && !w.takes i then w.waited + 1 else 0
  taking := w.takes i
  current :=
    if w.takes i then w.current ++ [w.sys.macTxData i]
    else if w.sys.regs.macTxDvld then w.current
    else []
  frames := if !w.sys.regs.macTxDvld && w.taking then w.frames ++ [w.current] else w.frames
  packetWritten := w.packetWritten ++ i.packetWr
  ctrlWritten := w.ctrlWritten ++ i.ctrlWr
  offered := if w.offers i then w.offered ++ [w.newOffer i] else w.offered
  offer := if w.offers i then w.newOffer i else w.offer
  sending := if w.startsCpu then w.offer.half else w.sending

/-- The state after some cycles. -/
def run (p : GbeTxParams) (w : TxWatch) (is : List GbeTxIn) : TxWatch := is.foldl (step p) w

/-- All frames that the MAC has got when data-valid is low. -/
def got (w : TxWatch) : List (List (BitVec 8)) :=
  if w.taking then w.frames ++ [w.current] else w.frames

end TxWatch

/-- `gbe_tx_packet_fifo` is 16384 deep, and holds two bytes more in its output registers. -/
def packetFifoDepth : Nat := 16384 + 2

/-- The sizes of some frames of the application, added. -/
def totalSize (cs : List TxCtrl) : Nat := (cs.map fun c => c.size.toNat).sum

/-- What the MAC, the application and the CPU do in a cycle. -/
structure Fed (w : TxWatch) (i : GbeTxIn) : Prop where
  /-- the MAC acknowledges the first byte after at least eight cycles -/
  ack : i.macTxAck = true → w.taking = false ∧ 8 ≤ w.waited
  /-- the bytes of a frame are there when its entry is written -/
  written : totalSize (w.ctrlWritten ++ i.ctrlWr) ≤ (w.packetWritten ++ i.packetWr).length
  size : ∀ c ∈ i.ctrlWr, 1 ≤ c.size.toNat
  /-- the packet FIFO does not overflow -/
  depth : w.sys.packetFifo.length ≤ packetFifoDepth
  /-- the CPU offers a frame when the handshake of the one before is over -/
  offer : w.offers i = true → w.sys.regs.cpuAck = false ∧ 1 ≤ i.cpuTxSize.toNat
  /-- what it offers stays until it is taken -/
  kept : w.sys.regs.cpuTxReadyR = true → w.sys.regs.cpuAck = false →
    i.cpuTxReady = true ∧ w.newOffer i = w.offer
  /-- what is being sent stays in its half of the buffer -/
  held : w.sys.regs.txState = .cpuWait ∨ w.sys.regs.txState = .cpuData →
    i.cpuBuffer w.sys.regs.cpuBufferSelReg = w.sending

/-- What the environment does in a run. -/
def AllFed (p : GbeTxParams) : TxWatch → List GbeTxIn → Prop
  | _, [] => True
  | w, i :: is => Fed w i ∧ AllFed p (w.step p i) is

namespace TxWatch

variable {p : GbeTxParams} {w : TxWatch} {i : GbeTxIn} {served : List Request}
  {ctrlQ : List TxCtrl} {packetQ : List (BitVec 8)} {offerQ : List CpuOffer}

/-! ## The books -/

/-- All that was written and offered belongs to a frame that is gone or waits in a queue. -/
structure Books (w : TxWatch) (served : List Request) (ctrlQ : List TxCtrl)
    (packetQ : List (BitVec 8)) (offerQ : List CpuOffer) : Prop where
  ctrl : w.ctrlWritten = served.flatMap Request.ctrl ++ ctrlQ
  packet : w.packetWritten = served.flatMap Request.data ++ packetQ
  offered : w.offered = served.flatMap Request.offer ++ offerQ
  whole : ∀ c data, .app c data ∈ served →
    data.length = c.size.toNat ∧ data.length ≤ packetFifoDepth
  enough : totalSize w.ctrlWritten ≤ w.packetWritten.length
  positive : ∀ c ∈ w.ctrlWritten, 1 ≤ c.size.toNat

/-- What the CPU offers in a cycle. -/
def offersNow (w : TxWatch) (i : GbeTxIn) : List CpuOffer :=
  if w.offers i then [w.newOffer i] else []

theorem Books.step (h : Books w served ctrlQ packetQ offerQ) (hi : Fed w i) :
    Books (w.step p i) served (ctrlQ ++ i.ctrlWr) (packetQ ++ i.packetWr)
      (offerQ ++ w.offersNow i) where
  ctrl := by
    show w.ctrlWritten ++ i.ctrlWr = _
    rw [h.ctrl, List.append_assoc]
  packet := by
    show w.packetWritten ++ i.packetWr = _
    rw [h.packet, List.append_assoc]
  offered := by
    show (if w.offers i then w.offered ++ [w.newOffer i] else w.offered) = _
    rw [← List.append_assoc, ← h.offered, offersNow]
    split <;> simp
  whole := h.whole
  enough := hi.written
  positive c hc := by
    rcases List.mem_append.mp hc with hc | hc
    · exact h.positive c hc
    · exact hi.size c hc

/-- A frame of the application is gone. -/
theorem Books.serve_app {c : TxCtrl} {data : List (BitVec 8)}
    (h : Books w served (c :: ctrlQ) (data ++ packetQ) offerQ)
    (hsize : data.length = c.size.toNat ∧ data.length ≤ packetFifoDepth) :
    Books w (served ++ [.app c data]) ctrlQ packetQ offerQ where
  ctrl := by simp [h.ctrl, Request.ctrl]
  packet := by simp [h.packet, Request.data]
  offered := by simp [h.offered, Request.offer]
  whole d e hmem := by
    rcases List.mem_append.mp hmem with hmem | hmem
    · exact h.whole d e hmem
    · cases List.mem_singleton.mp hmem
      exact hsize
  enough := h.enough
  positive := h.positive

/-- A frame of the CPU is gone. -/
theorem Books.serve_cpu {o : CpuOffer} (h : Books w served ctrlQ packetQ (o :: offerQ)) :
    Books w (served ++ [.cpu o]) ctrlQ packetQ offerQ where
  ctrl := by simp [h.ctrl, Request.ctrl]
  packet := by simp [h.packet, Request.data]
  offered := by simp [h.offered, Request.offer]
  whole d e hmem := by
    rcases List.mem_append.mp hmem with hmem | hmem
    · exact h.whole d e hmem
    · cases List.mem_singleton.mp hmem
  enough := h.enough
  positive := h.positive

theorem totalSize_append (cs ds : List TxCtrl) :
    totalSize (cs ++ ds) = totalSize cs + totalSize ds := by
  simp [totalSize]

/-- The frames that are gone took as many bytes as their entries say. -/
theorem length_served : ∀ served : List Request,
    (∀ c data, .app c data ∈ served →
      data.length = c.size.toNat ∧ data.length ≤ packetFifoDepth) →
    (served.flatMap Request.data).length = totalSize (served.flatMap Request.ctrl)
  | [], _ => rfl
  | .app c data :: served, h => by
    have ih := length_served served fun d e hmem => h d e (List.mem_cons_of_mem _ hmem)
    rw [List.flatMap_cons, List.flatMap_cons, List.length_append, ih, totalSize_append,
      Request.data, Request.ctrl, (h c data List.mem_cons_self).1]
    simp [totalSize]
  | .cpu o :: served, h => by
    have ih := length_served served fun d e hmem => h d e (List.mem_cons_of_mem _ hmem)
    exact ih

/-- The bytes of the frame at the front are there. -/
theorem Books.front {c : TxCtrl} (h : Books w served (c :: ctrlQ) packetQ offerQ) :
    1 ≤ c.size.toNat ∧ c.size.toNat ≤ packetQ.length := by
  have henough := h.enough
  rw [h.ctrl, h.packet, List.length_append, totalSize_append,
    length_served served h.whole] at henough
  have hfront : c.size.toNat ≤ totalSize (c :: ctrlQ) := by
    simp [totalSize]
  refine ⟨h.positive c ?_, by omega⟩
  rw [h.ctrl]
  simp

/-! ## The handshake with the CPU -/

/-- The offer that waits, if there is one. -/
def waiting (w : TxWatch) : List CpuOffer :=
  if w.sys.regs.cpuTxReadyR && !w.sys.regs.cpuAck then [w.offer] else []

/-- What the handshake has reached. -/
structure Shake (w : TxWatch) : Prop where
  kept : w.sys.regs.cpuAck = false → w.sys.regs.cpuTxReadyRR = true → w.sys.regs.cpuTxReadyR = true
  taken : w.sys.regs.cpuAck = true → w.sys.regs.cpuTxReadyR = true → w.sys.regs.cpuTxReadyRR = true
  size : ∀ o ∈ w.waiting, 1 ≤ o.size.toNat

theorem cpuAck_step (hstart : w.startsCpu = false) :
    (w.step p i).sys.regs.cpuAck
      = if !w.sys.regs.cpuTxReadyRR then false else w.sys.regs.cpuAck := by
  show (if w.startsCpu then true else _) = _
  rw [hstart]
  rfl

/-- A cycle in which no frame of the CPU is started. -/
theorem Shake.waiting_step (h : Shake w) (hi : Fed w i) (hstart : w.startsCpu = false) :
    (w.step p i).waiting = w.waiting ++ w.offersNow i := by
  have hack := cpuAck_step (p := p) (i := i) hstart
  have hR : (w.step p i).sys.regs.cpuTxReadyR = i.cpuTxReady := rfl
  have hoffer : (w.step p i).offer = if w.offers i then w.newOffer i else w.offer := rfl
  have hnew := hi.offer
  rw [waiting, waiting, offersNow, hack, hR, hoffer]
  unfold offers at *
  by_cases hr : w.sys.regs.cpuTxReadyR = true
  · rw [hr, Bool.not_true, Bool.and_false, Bool.true_and, if_neg Bool.false_ne_true,
      if_neg Bool.false_ne_true, List.append_nil]
    by_cases ha : w.sys.regs.cpuAck = true
    · rw [h.taken ha hr, ha]
      simp
    · rw [Bool.not_eq_true] at ha
      rw [(hi.kept hr ha).1, ha]
      simp
  · rw [Bool.not_eq_true] at hr
    rw [hr] at hnew ⊢
    by_cases hready : i.cpuTxReady = true
    · rw [hready] at hnew ⊢
      rw [(hnew rfl).1]
      simp
    · rw [Bool.not_eq_true] at hready
      rw [hready]
      simp

theorem Shake.step (h : Shake w) (hi : Fed w i) (hstart : w.startsCpu = false) :
    Shake (w.step p i) := by
  have hack := cpuAck_step (p := p) (i := i) hstart
  have hR : (w.step p i).sys.regs.cpuTxReadyR = i.cpuTxReady := rfl
  have hRR : (w.step p i).sys.regs.cpuTxReadyRR = w.sys.regs.cpuTxReadyR := rfl
  refine ⟨fun ha hr => ?_, fun ha hr => ?_, fun o ho => ?_⟩
  · rw [hRR] at hr
    rw [hR]
    by_cases hnow : w.sys.regs.cpuAck = true
    · rw [hack, h.taken hnow hr, hnow] at ha
      exact absurd ha (by decide)
    · exact (hi.kept hr (Bool.not_eq_true _ ▸ hnow)).1
  · rw [hR] at hr
    rw [hRR]
    by_contra hnone
    rw [Bool.not_eq_true] at hnone
    have hnew := (hi.offer (by rw [offers, hr, hnone]; rfl)).1
    rw [hack, hnew, ite_self] at ha
    exact absurd ha Bool.false_ne_true
  · rw [h.waiting_step hi hstart] at ho
    rcases List.mem_append.mp ho with ho | ho
    · exact h.size o ho
    · unfold offersNow at ho
      split at ho
      · next hnow =>
        rw [List.mem_singleton.mp ho]
        exact (hi.offer hnow).2
      · exact absurd ho List.not_mem_nil

/-- A frame of the CPU is started: it is the one that waits, and no other comes. -/
theorem Shake.start (h : Shake w) (hi : Fed w i) (hstart : w.startsCpu = true) :
    Shake (w.step p i) ∧ w.waiting = [w.offer] ∧ (w.step p i).waiting = [] ∧
      w.offersNow i = [] ∧ i.cpuTxSize = w.offer.size := by
  have hack : (w.step p i).sys.regs.cpuAck = true := by
    show (if w.startsCpu then true else _) = _
    rw [hstart]
    rfl
  obtain ⟨-, hstarts⟩ := Bool.and_eq_true_iff.mp hstart
  obtain ⟨hnot, hpending⟩ := Bool.and_eq_true_iff.mp hstarts
  rw [Bool.not_eq_true'] at hnot
  have hr := h.kept hnot hpending
  obtain ⟨hready, hsame⟩ := hi.kept hr hnot
  have hnone : (w.step p i).waiting = [] := by
    rw [waiting, hack, Bool.not_true, Bool.and_false]
    rfl
  refine ⟨⟨fun ha => ?_, fun _ _ => hr, fun o ho => ?_⟩, ?_, hnone, ?_, ?_⟩
  · exact absurd (hack.symm.trans ha) (by decide)
  · rw [hnone] at ho
    exact absurd ho List.not_mem_nil
  · rw [waiting, hr, hnot]
    rfl
  · rw [offersNow, offers, hr, Bool.not_true, Bool.and_false]
    rfl
  · rw [← hsame]
    rfl

end TxWatch

end MlibDevel.Onegbe
