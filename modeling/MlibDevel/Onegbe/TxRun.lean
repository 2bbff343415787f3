import MlibDevel.Onegbe.TxQueue

/-!
# How a frame is sent (`gbe_tx.v`)

From one idle state to the next the core hands over a single frame, byte by byte, and takes it out
of the books (`Handing.step`).
-/

namespace MlibDevel.Onegbe

open Lib

namespace TxWatch

variable {p : GbeTxParams} {w : TxWatch} {i : GbeTxIn} {served : List Request}
  {ctrlQ : List TxCtrl} {packetQ : List (BitVec 8)} {offerQ : List CpuOffer}

/-! ## A frame in flight -/

/-- What holds while the frame `r` is handed over, which is gone in the books. -/
structure Serving (p : GbeTxParams) (w : TxWatch) (served : List Request) (r : Request)
    (ctrlQ : List TxCtrl) (packetQ : List (BitVec 8)) : Prop where
  books : Books w (served ++ [r]) ctrlQ packetQ w.waiting
  shake : Shake w
  frames : w.frames = served.map (Request.bytes p)
  busy : w.sys.regs.txState ≠ .idle

/-- The core is idle, and the MAC has got the frames that are gone. -/
structure Idle (p : GbeTxParams) (w : TxWatch) (served : List Request) : Prop where
  books : Books w served w.sys.ctrlFifo w.sys.packetFifo w.waiting
  shake : Shake w
  got : w.got = served.map (Request.bytes p)
  state : w.sys.regs.txState = .idle
  waited : w.waited = 0

theorem startsCpu_of_busy (h : w.sys.regs.txState ≠ .idle) : w.startsCpu = false := by
  rw [startsCpu, beq_eq_false_iff_ne.mpr h, Bool.false_and]

theorem macTxDvld_of_busy (h : w.sys.regs.txState ≠ .idle) : w.sys.regs.macTxDvld = true :=
  bne_iff_ne.mpr h

theorem takes_of_busy (h : w.sys.regs.txState ≠ .idle) : w.takes i = (i.macTxAck || w.taking) := by
  rw [takes, macTxDvld_of_busy h, Bool.true_and]

/-- The MAC acknowledges nothing while it takes bytes. -/
theorem not_ack (hi : Fed w i) (htaking : w.taking = true) : i.macTxAck = false := by
  by_contra hack
  rw [Bool.not_eq_false] at hack
  exact absurd ((hi.ack hack).1.symm.trans htaking) Bool.false_ne_true

variable {r : Request}

/-- Of the books, of the handshake and of the frames taken, nothing changes. -/
theorem Serving.next (h : Serving p w served r ctrlQ packetQ) (hi : Fed w i) :
    Books (w.step p i) (served ++ [r]) (ctrlQ ++ i.ctrlWr) (packetQ ++ i.packetWr)
        (w.step p i).waiting ∧
      Shake (w.step p i) ∧ (w.step p i).frames = served.map (Request.bytes p) := by
  have hstart := startsCpu_of_busy h.busy
  refine ⟨?_, h.shake.step hi hstart, ?_⟩
  · rw [h.shake.waiting_step hi hstart]
    exact h.books.step hi
  · show (if !w.sys.regs.macTxDvld && w.taking then _ else w.frames) = _
    rw [macTxDvld_of_busy h.busy]
    exact h.frames

theorem Serving.step (h : Serving p w served r ctrlQ packetQ) (hi : Fed w i)
    (hbusy : (w.step p i).sys.regs.txState ≠ .idle) :
    Serving p (w.step p i) served r (ctrlQ ++ i.ctrlWr) (packetQ ++ i.packetWr) := by
  obtain ⟨hbooks, hshake, hframes⟩ := h.next (p := p) hi
  exact ⟨hbooks, hshake, hframes, hbusy⟩

/-- The last byte is taken. -/
theorem Serving.finish (h : Serving p w served r ctrlQ packetQ) (hi : Fed w i)
    (hctrl : (w.step p i).sys.ctrlFifo = ctrlQ ++ i.ctrlWr)
    (hpacket : (w.step p i).sys.packetFifo = packetQ ++ i.packetWr)
    (hstate : (w.step p i).sys.regs.txState = .idle) (htakes : w.takes i = true)
    (hcurrent : (w.step p i).current = r.bytes p) : Idle p (w.step p i) (served ++ [r]) := by
  obtain ⟨hbooks, hshake, hframes⟩ := h.next (p := p) hi
  refine ⟨?_, hshake, ?_, hstate, ?_⟩
  · rw [hctrl, hpacket]
    exact hbooks
  · show (if w.takes i then (w.step p i).frames ++ [(w.step p i).current] else _) = _
    rw [htakes, if_pos rfl, hframes, hcurrent, List.map_append]
    rfl
  · show (if w.sys.regs.macTxDvld && !w.takes i then w.waited + 1 else 0) = 0
    rw [htakes, Bool.not_true, Bool.and_false]
    rfl

/-- The size of a frame of the application. -/
theorem Serving.size {c : TxCtrl} {data : List (BitVec 8)}
    (h : Serving p w served (.app c data) ctrlQ packetQ) :
    data.length = c.size.toNat ∧ 1 ≤ c.size.toNat := by
  refine ⟨(h.books.whole c data (by simp)).1, h.books.positive c ?_⟩
  rw [h.books.ctrl]
  simp [Request.ctrl]

/-- The byte that is taken comes behind the ones before. -/
theorem current_step (htakes : w.takes i = true) {k : Nat} {bytes : List (BitVec 8)}
    (hk : k < bytes.length) (hcurrent : w.current = bytes.take k)
    (hdata : w.sys.macTxData i = bytes.getD k 0) :
    (w.step p i).current = bytes.take (k + 1) := by
  show (if w.takes i then w.current ++ [w.sys.macTxData i] else _) = _
  rw [htakes, if_pos rfl, hcurrent, hdata, List.getD_eq_getElem _ _ hk,
    ← List.take_succ_eq_append_getElem hk]

/-! ## The start of a frame -/

/-- The headers of a frame of the application stand until the MAC takes the first byte. -/
structure AppWaits (p : GbeTxParams) (w : TxWatch) (served : List Request) (c : TxCtrl)
    (data : List (BitVec 8)) (cs : List TxCtrl) (rest : List (BitVec 8)) : Prop where
  serving : Serving p w served (.app c data) cs rest
  ctrl : w.sys.ctrlFifo = c :: cs
  packet : w.sys.packetFifo = data ++ rest
  state : w.sys.regs.txState = .appHdr0
  stateZ : 1 ≤ w.waited → w.sys.regs.txStateZ = .appHdr0
  progress : w.sys.regs.progress = 1
  acked : w.sys.regs.txAcked = false
  count : w.sys.regs.txCount = c.size
  settling : w.sys.regs.Settling p c w.waited
  taking : w.taking = false
  current : w.current = []

/-- The first byte of a frame of the CPU stands until the MAC takes it. -/
structure CpuWaits (p : GbeTxParams) (w : TxWatch) (served : List Request) (o : CpuOffer) :
    Prop where
  serving : Serving p w served (.cpu o) w.sys.ctrlFifo w.sys.packetFifo
  state : w.sys.regs.txState = .cpuWait
  stateZ : w.sys.regs.txStateZ = .idle ∨ w.sys.regs.txStateZ = .cpuWait
  count : w.sys.regs.txCount = 0#2 ++ o.size ++ 0#3
  addr : w.sys.regs.cpuAddrReg = 0
  sending : w.sending = o.half
  data : 1 ≤ w.waited → w.sys.regs.cpuTxBufferRdData = o.half 0
  size : 1 ≤ o.size.toNat
  taking : w.taking = false
  current : w.current = []

/-- Nothing is taken while the core is idle. -/
theorem Idle.takes (h : Idle p w served) : w.takes i = false := by
  rw [TxWatch.takes, GbeTx.macTxDvld, h.state]
  rfl

theorem Idle.not_ack (h : Idle p w served) (hi : Fed w i) : i.macTxAck = false := by
  by_contra hack
  rw [Bool.not_eq_false] at hack
  have hlong := (hi.ack hack).2
  rw [h.waited] at hlong
  omega

/-- What the observer sees in a cycle in which the core is idle. -/
theorem Idle.seen (h : Idle p w served) :
    (w.step p i).frames = served.map (Request.bytes p) ∧ (w.step p i).taking = false ∧
      (w.step p i).current = [] ∧ (w.step p i).waited = 0 := by
  have hdvld : w.sys.regs.macTxDvld = false := by
    rw [GbeTx.macTxDvld, h.state]
    rfl
  refine ⟨?_, h.takes, ?_, ?_⟩
  · rw [← h.got]
    show (if !w.sys.regs.macTxDvld && w.taking then _ else w.frames) = _
    rw [hdvld, Bool.not_false, Bool.true_and]
    rfl
  · show (if w.takes i then _ else if w.sys.regs.macTxDvld then w.current else []) = _
    rw [h.takes, hdvld]
    rfl
  · show (if w.sys.regs.macTxDvld && _ then w.waited + 1 else 0) = _
    rw [hdvld]
    rfl

/-- The FIFOs are read only while data of the application are sent. -/
theorem fifos_step (h : w.sys.regs.txState ≠ .appData) :
    (w.step p i).sys.ctrlFifo = w.sys.ctrlFifo ++ i.ctrlWr ∧
      (w.step p i).sys.packetFifo = w.sys.packetFifo ++ i.packetWr := by
  have hdata : (w.sys.regs.txState == .appData) = false := beq_eq_false_iff_ne.mpr h
  constructor
  · show (if w.sys.regs.ctrlFifoRd then _ else w.sys.ctrlFifo) ++ _ = _
    rw [GbeTx.ctrlFifoRd, hdata]
    rfl
  · show (if w.sys.regs.packetFifoRd then _ else w.sys.packetFifo) ++ _ = _
    rw [GbeTx.packetFifoRd, hdata]
    rfl

/-- A frame of the CPU goes first. -/
theorem Idle.start_cpu (h : Idle p w served) (hi : Fed w i) (hstart : w.startsCpu = true) :
    CpuWaits p (w.step p i) served w.offer := by
  obtain ⟨hshake, hwaiting, hnone, hnew, hsize⟩ := h.shake.start (p := p) hi hstart
  obtain ⟨hframes, htaking, hcurrent, hwaited⟩ := h.seen (i := i)
  obtain ⟨hctrl, hpacket⟩ := fifos_step (p := p) (i := i) (w := w) (by rw [h.state]; decide)
  have hcpu : w.sys.regs.cpuStarts = true := (Bool.and_eq_true_iff.mp hstart).2
  have hbooks := h.books.step (p := p) hi
  rw [hwaiting, hnew, List.append_nil] at hbooks
  have hstate : (w.step p i).sys.regs.txState = .cpuWait := by
    show w.sys.regs.nextTxState _ i = _
    rw [GbeTx.nextTxState, h.state, hcpu]
    rfl
  refine ⟨⟨?_, hshake, hframes, by rw [hstate]; decide⟩, hstate, .inl h.state, ?_, ?_, ?_, ?_, ?_,
    htaking, hcurrent⟩
  · rw [hnone, hctrl, hpacket]
    exact hbooks.serve_cpu
  · show w.sys.regs.nextTxCount _ _ i = _
    rw [GbeTx.nextTxCount, h.state, hcpu, ← hsize]
    rfl
  · show w.sys.regs.cpuAddrNext i = 0
    rw [GbeTx.cpuAddrNext, h.state, h.not_ack hi]
    rfl
  · show (if w.startsCpu then w.offer.half else w.sending) = _
    rw [hstart, if_pos rfl]
  · rw [hwaited]
    exact fun hlong => absurd hlong (by omega)
  · exact h.shake.size w.offer (by rw [hwaiting]; exact List.mem_singleton_self _)

/-- Else one of the application. -/
theorem Idle.start_app (h : Idle p w served) (hi : Fed w i) (hcpu : w.startsCpu = false)
    {c : TxCtrl} {cs : List TxCtrl} (hctrl : w.sys.ctrlFifo = c :: cs)
    (hstart : w.sys.regs.appStarts false = true) :
    AppWaits p (w.step p i) served c (w.sys.packetFifo.take c.size.toNat) (cs ++ i.ctrlWr)
      (w.sys.packetFifo.drop c.size.toNat ++ i.packetWr) := by
  obtain ⟨hframes, htaking, hcurrent, hwaited⟩ := h.seen (i := i)
  obtain ⟨hctrl', hpacket'⟩ := fifos_step (p := p) (i := i) (w := w) (by rw [h.state]; decide)
  have hnot : w.sys.regs.cpuStarts = false := by
    rw [startsCpu, h.state] at hcpu
    exact hcpu
  have hbooks := h.books
  rw [hctrl] at hbooks
  obtain ⟨-, hfit⟩ := hbooks.front
  rw [← List.take_append_drop c.size.toNat w.sys.packetFifo] at hbooks
  have hlen : (w.sys.packetFifo.take c.size.toNat).length = c.size.toNat := by
    rw [List.length_take, Nat.min_eq_left hfit]
  have hserved :=
    (hbooks.serve_app ⟨hlen, by rw [hlen]; exact Nat.le_trans hfit hi.depth⟩).step (p := p) hi
  have hstate : (w.step p i).sys.regs.txState = .appHdr0 := by
    show w.sys.regs.nextTxState _ i = _
    rw [GbeTx.nextTxState, h.state, hnot, hctrl, List.isEmpty_cons, hstart]
    rfl
  refine ⟨⟨?_, h.shake.step hi hcpu, hframes, by rw [hstate]; decide⟩, ?_, ?_, hstate, ?_, ?_, ?_,
    ?_, ?_, htaking, hcurrent⟩
  · rw [h.shake.waiting_step hi hcpu]
    exact hserved
  · rw [hctrl', hctrl]
    rfl
  · rw [hpacket', ← List.append_assoc, List.take_append_drop]
  · rw [hwaited]
    exact fun hlong => absurd hlong (by omega)
  · show w.sys.regs.nextProgress i = 1
    rw [GbeTx.nextProgress, h.state]
  · show w.sys.regs.nextTxAcked i = false
    rw [GbeTx.nextTxAcked, h.state]
  · show w.sys.regs.nextTxCount _ _ i = _
    rw [GbeTx.nextTxCount, h.state, hnot, hctrl, List.isEmpty_cons, hstart]
    rfl
  · rw [hwaited]
    exact GbeTx.settling_zero (by rw [hctrl]; rfl)

/-- Else the core stays idle. -/
theorem Idle.stay (h : Idle p w served) (hi : Fed w i) (hcpu : w.startsCpu = false)
    (happ : w.sys.regs.appStarts w.sys.ctrlFifo.isEmpty = false) : Idle p (w.step p i) served := by
  obtain ⟨hframes, htaking, hcurrent, hwaited⟩ := h.seen (i := i)
  obtain ⟨hctrl, hpacket⟩ := fifos_step (p := p) (i := i) (w := w) (by rw [h.state]; decide)
  have hnot : w.sys.regs.cpuStarts = false := by
    rw [startsCpu, h.state] at hcpu
    exact hcpu
  refine ⟨?_, h.shake.step hi hcpu, ?_, ?_, hwaited⟩
  · rw [h.shake.waiting_step hi hcpu, hctrl, hpacket]
    exact h.books.step hi
  · rw [TxWatch.got, htaking]
    exact hframes
  · show w.sys.regs.nextTxState _ i = _
    rw [GbeTx.nextTxState, h.state, hnot, happ]
    rfl

/-! ## A frame of the application -/

/-- Byte `k` of the headers is next. -/
structure AppHeader (p : GbeTxParams) (w : TxWatch) (served : List Request) (c : TxCtrl)
    (data : List (BitVec 8)) (cs : List TxCtrl) (rest : List (BitVec 8)) (k : Nat) : Prop where
  serving : Serving p w served (.app c data) cs rest
  ctrl : w.sys.ctrlFifo = c :: cs
  packet : w.sys.packetFifo = data ++ rest
  header : w.sys.regs.InHeader p c k
  taking : w.taking = true
  current : w.current = (p.frameHeader c).take k

/-- Byte `j` of the data is next. -/
structure AppSends (p : GbeTxParams) (w : TxWatch) (served : List Request) (c : TxCtrl)
    (data : List (BitVec 8)) (cs : List TxCtrl) (rest : List (BitVec 8)) (j : Nat) : Prop where
  serving : Serving p w served (.app c data) cs rest
  ctrl : w.sys.ctrlFifo = if j + 1 = data.length then cs else c :: cs
  packet : w.sys.packetFifo = data.drop j ++ rest
  state : w.sys.regs.txState = .appData
  stateZ : w.sys.regs.txStateZ = .appData
  last : w.sys.regs.hdrLast = false
  count : w.sys.regs.txCount = BitVec.ofNat 16 (data.length - 1 - j)
  taking : w.taking = true
  current : w.current = (p.frameHeader c ++ data).take (42 + j)

variable {c : TxCtrl} {data rest : List (BitVec 8)} {cs : List TxCtrl}

/-- Nothing happens as long as the MAC does not take the first byte. -/
theorem AppWaits.wait (h : AppWaits p w served c data cs rest) (hi : Fed w i)
    (hack : i.macTxAck = false) :
    AppWaits p (w.step p i) served c data (cs ++ i.ctrlWr) (rest ++ i.packetWr) := by
  have htakes : w.takes i = false := by rw [takes_of_busy h.serving.busy, hack, h.taking]; rfl
  have hdvld := macTxDvld_of_busy h.serving.busy
  obtain ⟨hctrl, hpacket⟩ := fifos_step (p := p) (i := i) (w := w) (by rw [h.state]; decide)
  have hstate : (w.step p i).sys.regs.txState = .appHdr0 := by
    show w.sys.regs.nextTxState _ i = _
    rw [GbeTx.nextTxState, h.state, h.progress]
    rfl
  refine ⟨h.serving.step hi (by rw [hstate]; decide), ?_, ?_, hstate, fun _ => h.state, ?_, ?_, ?_,
    ?_, htakes, ?_⟩
  · rw [hctrl, h.ctrl, List.cons_append]
  · rw [hpacket, h.packet, List.append_assoc]
  · show w.sys.regs.nextProgress i = 1
    rw [GbeTx.nextProgress, h.state, hack, h.acked, h.progress]
    rfl
  · show w.sys.regs.nextTxAcked i = false
    rw [GbeTx.nextTxAcked, h.state, hack, h.acked]
    rfl
  · show w.sys.regs.nextTxCount _ _ i = _
    rw [GbeTx.nextTxCount, h.state, h.count]
  · have hwaited : (w.step p i).waited = w.waited + 1 := by
      show (if w.sys.regs.macTxDvld && !w.takes i then _ else _) = _
      rw [hdvld, htakes]
      rfl
    rw [hwaited]
    exact h.settling.step (by rw [h.ctrl]; rfl)
  · show (if w.takes i then _ else if w.sys.regs.macTxDvld then w.current else []) = _
    rw [htakes, hdvld]
    exact h.current

/-- The MAC takes the first byte. -/
theorem AppWaits.take (h : AppWaits p w served c data cs rest) (hi : Fed w i)
    (hack : i.macTxAck = true) :
    AppHeader p (w.step p i) served c data (cs ++ i.ctrlWr) (rest ++ i.packetWr) 1 := by
  have htakes : w.takes i = true := by rw [takes_of_busy h.serving.busy, hack]; rfl
  have hlong := (hi.ack hack).2
  have hctrlHead : w.sys.ctrlFifo.headD ⟨0, 0, 0⟩ = c := by rw [h.ctrl]; rfl
  have hsettling := h.settling.mono (show 3 ≤ w.waited by omega)
  obtain ⟨hctrl, hpacket⟩ := fifos_step (p := p) (i := i) (w := w) (by rw [h.state]; decide)
  have hstate : (w.step p i).sys.regs.txState = .appHdr0 := by
    show w.sys.regs.nextTxState _ i = _
    rw [GbeTx.nextTxState, h.state, h.progress]
    rfl
  have hfirst : w.sys.macTxData i = (p.frameHeader c).getD 0 0 := by
    rw [GbeTxSys.macTxData, GbeTx.macTxData, h.stateZ (by omega), hack, h.settling.arp]
    rfl
  refine ⟨h.serving.step hi (by rw [hstate]; decide), ?_, ?_, ?_, htakes, ?_⟩
  · rw [hctrl, h.ctrl, List.cons_append]
  · rw [hpacket, h.packet, List.append_assoc]
  · have hsettled := (hsettling.step (i := i) hctrlHead).mono (Nat.le_succ 3)
    refine ⟨hstate, fun _ => ?_, fun _ => ?_, ?_, ?_, hsettled, fun d j hj => ?_⟩
    · show w.sys.regs.nextProgress i = _
      rw [GbeTx.nextProgress, h.state, hack, h.progress]
      rfl
    · show w.sys.regs.nextTxAcked i = true
      rw [GbeTx.nextTxAcked, h.state, hack]
      rfl
    · show (w.sys.regs.txState == .appHdr2 && _) = _
      rw [h.state]
      rfl
    · show w.sys.regs.nextTxCount _ _ i = _
      rw [GbeTx.nextTxCount, h.state, h.count]
    · exact GbeTx.edge_data (k := 0) hctrlHead hsettling (by omega) h.state h.progress d hj
  · exact current_step htakes (by rw [GbeTxParams.length_frameHeader]; omega) h.current hfirst

theorem AppHeader.step {k : Nat} (h : AppHeader p w served c data cs rest k) (hi : Fed w i)
    (hk : k < 41) :
    AppHeader p (w.step p i) served c data (cs ++ i.ctrlWr) (rest ++ i.packetWr) (k + 1) := by
  have htakes : w.takes i = true := by rw [takes_of_busy h.serving.busy, h.taking, Bool.or_true]
  have hctrlHead : w.sys.ctrlFifo.headD ⟨0, 0, 0⟩ = c := by rw [h.ctrl]; rfl
  have hheader : (w.step p i).sys.regs.InHeader p c (k + 1) := h.header.step hctrlHead hk
  have hnotData : ∀ n, GbeTx.hdrState n ≠ .idle ∧ (n < 41 → GbeTx.hdrState n ≠ .appData) := by
    intro n
    unfold GbeTx.hdrState
    split_ifs <;> (simp; try omega)
  obtain ⟨hctrl, hpacket⟩ := fifos_step (p := p) (i := i) (w := w)
    (by rw [h.header.state]; exact (hnotData k).2 hk)
  refine ⟨h.serving.step hi (by rw [hheader.state]; exact (hnotData _).1), ?_, ?_, hheader, htakes,
    ?_⟩
  · rw [hctrl, h.ctrl, List.cons_append]
  · rw [hpacket, h.packet, List.append_assoc]
  · exact current_step htakes (by rw [GbeTxParams.length_frameHeader]; omega) h.current
      (h.header.data _ i (not_ack hi h.taking))

/-- The last byte of the headers is taken while the state is that of the data already. -/
theorem AppHeader.last (h : AppHeader p w served c data cs rest 41) (hi : Fed w i) :
    AppSends p (w.step p i) served c data (cs ++ i.ctrlWr) (rest ++ i.packetWr) 0 := by
  obtain ⟨hlen, hpos⟩ := h.serving.size
  have htakes : w.takes i = true := by rw [takes_of_busy h.serving.busy, h.taking, Bool.or_true]
  have hdata : w.sys.regs.txState = .appData := h.header.state
  have hlast : w.sys.regs.hdrLast = true := h.header.last
  have hcount : w.sys.regs.txCount = BitVec.ofNat 16 data.length := by
    rw [h.header.count, hlen, BitVec.ofNat_toNat, BitVec.setWidth_eq]
  have hsmall := c.size.isLt
  have hone : (w.sys.regs.txCount == 1) = (data.length == 1) :=
    hcount ▸ GbeTx.ofNat_beq (b := 1) (by omega) (by omega)
  have hzero : (w.sys.regs.txCount == 0) = (data.length == 0) :=
    hcount ▸ GbeTx.ofNat_beq (b := 0) (by omega) (by omega)
  have hstate : (w.step p i).sys.regs.txState = .appData := by
    show w.sys.regs.nextTxState _ i = _
    rw [GbeTx.nextTxState, hdata, hzero, beq_eq_false_iff_ne.mpr (show data.length ≠ 0 by omega)]
    rfl
  refine ⟨h.serving.step hi (by rw [hstate]; decide), ?_, ?_, hstate, hdata, ?_, ?_, htakes, ?_⟩
  · show (if w.sys.regs.ctrlFifoRd then w.sys.ctrlFifo.tail else w.sys.ctrlFifo) ++ _ = _
    rw [GbeTx.ctrlFifoRd, hdata, hone, h.ctrl]
    by_cases hshort : data.length = 1
    · rw [if_pos (by simpa using hshort), if_pos (by omega)]
      rfl
    · rw [if_neg (by simpa using hshort), if_neg (by omega)]
      rfl
  · show (if w.sys.regs.packetFifoRd then _ else w.sys.packetFifo) ++ _ = _
    rw [GbeTx.packetFifoRd, hlast, Bool.not_true, Bool.and_false, if_neg Bool.false_ne_true,
      h.packet, List.append_assoc]
    rfl
  · show (w.sys.regs.txState == .appHdr2 && _) = _
    rw [hdata]
    rfl
  · show w.sys.regs.nextTxCount _ _ i = _
    rw [GbeTx.nextTxCount, hdata, hcount, Nat.sub_zero]
    exact BitVec.ofNat_sub_ofNat_of_le _ 1 (by omega) (by omega)
  · have hcurrent := current_step (p := p) htakes (by rw [GbeTxParams.length_frameHeader]; omega)
      h.current (h.header.data _ i (not_ack hi h.taking))
    rw [hcurrent,
      List.take_append_of_le_length (Nat.le_of_eq (GbeTxParams.length_frameHeader ..).symm)]

/-- What a cycle does while byte `j` of the data is taken. -/
theorem AppSends.next {j : Nat} (h : AppSends p w served c data cs rest j)
    (hj : j < data.length) :
    w.takes i = true ∧
      (w.step p i).current = (p.frameHeader c ++ data).take (42 + j + 1) ∧
      (w.step p i).sys.regs.txState = (if j + 1 = data.length then .idle else .appData) ∧
      (w.step p i).sys.ctrlFifo = (if j + 2 < data.length then c :: cs else cs) ++ i.ctrlWr ∧
      (w.step p i).sys.packetFifo = data.drop (j + 1) ++ (rest ++ i.packetWr) := by
  obtain ⟨hlen, hpos⟩ := h.serving.size
  have hsmall := c.size.isLt
  have htakes : w.takes i = true := by rw [takes_of_busy h.serving.busy, h.taking, Bool.or_true]
  have hone : (w.sys.regs.txCount == 1) = (data.length - 1 - j == 1) :=
    h.count ▸ GbeTx.ofNat_beq (b := 1) (by omega) (by omega)
  have hzero : (w.sys.regs.txCount == 0) = (data.length - 1 - j == 0) :=
    h.count ▸ GbeTx.ofNat_beq (b := 0) (by omega) (by omega)
  have hdrop : data.drop j = data[j] :: data.drop (j + 1) := List.drop_eq_getElem_cons hj
  refine ⟨htakes, ?_, ?_, ?_, ?_⟩
  · refine current_step htakes ?_ h.current ?_
    · rw [List.length_append, GbeTxParams.length_frameHeader]
      omega
    · rw [GbeTxSys.macTxData, GbeTx.macTxData, h.stateZ, h.last, h.packet, hdrop,
        List.getD_append_right _ _ _ _ (by rw [GbeTxParams.length_frameHeader]; omega),
        GbeTxParams.length_frameHeader, Nat.add_sub_cancel_left, List.getD_eq_getElem _ _ hj]
      rfl
  · show w.sys.regs.nextTxState _ i = _
    rw [GbeTx.nextTxState, h.state, hzero]
    by_cases hend : j + 1 = data.length
    · rw [if_pos hend, beq_iff_eq.mpr (show data.length - 1 - j = 0 by omega)]
      rfl
    · rw [if_neg hend, beq_eq_false_iff_ne.mpr (show data.length - 1 - j ≠ 0 by omega)]
      rfl
  · show (if w.sys.regs.ctrlFifoRd then w.sys.ctrlFifo.tail else w.sys.ctrlFifo) ++ _ = _
    rw [GbeTx.ctrlFifoRd, h.state, hone, h.ctrl]
    congr 1
    by_cases hend : j + 1 = data.length
    · rw [beq_eq_false_iff_ne.mpr (show data.length - 1 - j ≠ 1 by omega), if_pos hend,
        if_neg (show ¬j + 2 < data.length by omega)]
      rfl
    · by_cases hpop : j + 2 = data.length
      · rw [beq_iff_eq.mpr (show data.length - 1 - j = 1 by omega), if_neg hend,
          if_neg (show ¬j + 2 < data.length by omega)]
        rfl
      · rw [beq_eq_false_iff_ne.mpr (show data.length - 1 - j ≠ 1 by omega), if_neg hend,
          if_pos (show j + 2 < data.length by omega)]
        rfl
  · show (if w.sys.regs.packetFifoRd then w.sys.packetFifo.tail else _) ++ _ = _
    rw [GbeTx.packetFifoRd, h.state, h.last, h.packet, hdrop, ← List.append_assoc]
    rfl

theorem AppSends.step {j : Nat} (h : AppSends p w served c data cs rest j) (hi : Fed w i)
    (hj : j + 1 < data.length) :
    AppSends p (w.step p i) served c data (cs ++ i.ctrlWr) (rest ++ i.packetWr) (j + 1) := by
  obtain ⟨htakes, hcurrent, hstate, hctrl, hpacket⟩ := h.next (p := p) (i := i) (by omega)
  have hsize := h.serving.size
  have hsmall := c.size.isLt
  rw [if_neg (by omega)] at hstate
  refine ⟨h.serving.step hi (by rw [hstate]; decide), ?_, hpacket, hstate, h.state, ?_, ?_, htakes,
    hcurrent⟩
  · rw [hctrl]
    by_cases hpop : j + 2 = data.length
    · rw [if_neg (by omega), if_pos (by omega)]
    · rw [if_pos (by omega), if_neg (by omega), List.cons_append]
  · show (w.sys.regs.txState == .appHdr2 && _) = _
    rw [h.state]
    rfl
  · show w.sys.regs.nextTxCount _ _ i = _
    rw [GbeTx.nextTxCount, h.state, h.count,
      show data.length - 1 - (j + 1) = data.length - 1 - j - 1 by omega]
    exact BitVec.ofNat_sub_ofNat_of_le _ 1 (by omega) (by omega)

theorem AppSends.finish {j : Nat} (h : AppSends p w served c data cs rest j) (hi : Fed w i)
    (hj : j + 1 = data.length) : Idle p (w.step p i) (served ++ [.app c data]) := by
  obtain ⟨htakes, hcurrent, hstate, hctrl, hpacket⟩ := h.next (p := p) (i := i) (by omega)
  rw [if_pos hj] at hstate
  rw [if_neg (by omega)] at hctrl
  rw [List.drop_eq_nil_of_le (by omega), List.nil_append] at hpacket
  refine h.serving.finish hi hctrl hpacket hstate htakes ?_
  rw [hcurrent, List.take_of_length_le]
  · rfl
  · rw [List.length_append, GbeTxParams.length_frameHeader]
    omega

/-! ## A frame of the CPU -/

/-- Byte `k` is next. -/
structure CpuSends (p : GbeTxParams) (w : TxWatch) (served : List Request) (o : CpuOffer)
    (k : Nat) : Prop where
  serving : Serving p w served (.cpu o) w.sys.ctrlFifo w.sys.packetFifo
  state : w.sys.regs.txState = .cpuData
  stateZ : w.sys.regs.txStateZ = .cpuWait ∨ w.sys.regs.txStateZ = .cpuData
  count : w.sys.regs.txCount = BitVec.ofNat 16 (8 * o.size.toNat + 1 - k)
  addr : w.sys.regs.cpuAddrReg = BitVec.ofNat 11 k
  sending : w.sending = o.half
  data : w.sys.regs.cpuTxBufferRdData = o.half (BitVec.ofNat 11 k)
  taking : w.taking = true
  current : w.current = o.bytes.take k

variable {o : CpuOffer}

theorem length_bytes (o : CpuOffer) : o.bytes.length = 8 * o.size.toNat := by
  simp [CpuOffer.bytes]

theorem getD_bytes {k : Nat} (hk : k < o.bytes.length) :
    o.bytes.getD k 0 = o.half (BitVec.ofNat 11 k) := by
  rw [List.getD_eq_getElem _ _ hk]
  simp [CpuOffer.bytes]

/-- The size, in bytes. -/
theorem cpuCount_eq (n : BitVec 11) :
    (0#2 ++ n ++ 0#3 : BitVec 16) = BitVec.ofNat 16 (8 * n.toNat) := by
  refine BitVec.eq_of_toNat_eq ?_
  have hn := n.isLt
  rw [BitVec.toNat_append, BitVec.toNat_append, Nat.shiftLeft_eq, BitVec.toNat_ofNat,
    BitVec.toNat_ofNat, BitVec.toNat_ofNat]
  simp
  omega

/-- Nothing happens as long as the MAC does not take the first byte. -/
theorem CpuWaits.wait (h : CpuWaits p w served o) (hi : Fed w i) (hack : i.macTxAck = false) :
    CpuWaits p (w.step p i) served o := by
  have htakes : w.takes i = false := by rw [takes_of_busy h.serving.busy, hack, h.taking]; rfl
  have hdvld := macTxDvld_of_busy h.serving.busy
  obtain ⟨hctrl, hpacket⟩ := fifos_step (p := p) (i := i) (w := w) (by rw [h.state]; decide)
  have hstate : (w.step p i).sys.regs.txState = .cpuWait := by
    show w.sys.regs.nextTxState _ i = _
    rw [GbeTx.nextTxState, h.state, hack]
    rfl
  have haddr : w.sys.regs.cpuAddrNext i = 0 := by
    rw [GbeTx.cpuAddrNext, h.state, hack]
    rfl
  have hstart := startsCpu_of_busy h.serving.busy
  refine ⟨?_, hstate, .inr h.state, ?_, haddr, ?_, fun _ => ?_, h.size, htakes, ?_⟩
  · rw [hctrl, hpacket]
    exact h.serving.step hi (by rw [hstate]; decide)
  · show w.sys.regs.nextTxCount _ _ i = _
    rw [GbeTx.nextTxCount, h.state, h.count]
  · show (if w.startsCpu then _ else w.sending) = _
    rw [hstart]
    exact h.sending
  · show i.cpuBuffer w.sys.regs.cpuBufferSelReg (w.sys.regs.cpuAddrNext i) = _
    rw [haddr, hi.held (.inl h.state), h.sending]
  · show (if w.takes i then _ else if w.sys.regs.macTxDvld then w.current else []) = _
    rw [htakes, hdvld]
    exact h.current

/-- The MAC takes the first byte. -/
theorem CpuWaits.take (h : CpuWaits p w served o) (hi : Fed w i) (hack : i.macTxAck = true) :
    CpuSends p (w.step p i) served o 1 := by
  have htakes : w.takes i = true := by rw [takes_of_busy h.serving.busy, hack]; rfl
  have hlong := (hi.ack hack).2
  obtain ⟨hctrl, hpacket⟩ := fifos_step (p := p) (i := i) (w := w) (by rw [h.state]; decide)
  have hstate : (w.step p i).sys.regs.txState = .cpuData := by
    show w.sys.regs.nextTxState _ i = _
    rw [GbeTx.nextTxState, h.state, hack]
    rfl
  have haddr : w.sys.regs.cpuAddrNext i = 1 := by
    rw [GbeTx.cpuAddrNext, hack, h.addr, Bool.or_true]
    rfl
  have hstart := startsCpu_of_busy h.serving.busy
  have hpos : 0 < o.bytes.length := by
    rw [length_bytes]
    have := h.size
    omega
  refine ⟨?_, hstate, .inl h.state, ?_, haddr, ?_, ?_, htakes, ?_⟩
  · rw [hctrl, hpacket]
    exact h.serving.step hi (by rw [hstate]; decide)
  · show w.sys.regs.nextTxCount _ _ i = _
    rw [GbeTx.nextTxCount, h.state, h.count, Nat.add_sub_cancel]
    exact cpuCount_eq o.size
  · show (if w.startsCpu then _ else w.sending) = _
    rw [hstart]
    exact h.sending
  · show i.cpuBuffer w.sys.regs.cpuBufferSelReg (w.sys.regs.cpuAddrNext i) = _
    rw [haddr, hi.held (.inl h.state), h.sending]
    rfl
  · refine current_step htakes hpos h.current ?_
    rw [getD_bytes hpos, GbeTxSys.macTxData, GbeTx.macTxData]
    rcases h.stateZ with hz | hz <;> rw [hz] <;> exact h.data (by omega)

/-- What a cycle does while byte `k` is taken. -/
theorem CpuSends.next {k : Nat} (h : CpuSends p w served o k) (hk : k < 8 * o.size.toNat) :
    w.takes i = true ∧ (w.step p i).current = o.bytes.take (k + 1) ∧
      (w.step p i).sys.regs.txState = (if k + 1 = 8 * o.size.toNat then .idle else .cpuData) := by
  have hsmall := o.size.isLt
  have htakes : w.takes i = true := by rw [takes_of_busy h.serving.busy, h.taking, Bool.or_true]
  have hlt : k < o.bytes.length := by rw [length_bytes]; exact hk
  have htwo : (w.sys.regs.txCount == 2) = (8 * o.size.toNat + 1 - k == 2) :=
    h.count ▸ GbeTx.ofNat_beq (b := 2) (by omega) (by omega)
  refine ⟨htakes, current_step htakes hlt h.current ?_, ?_⟩
  · rw [getD_bytes hlt, GbeTxSys.macTxData, GbeTx.macTxData]
    rcases h.stateZ with hz | hz <;> rw [hz] <;> exact h.data
  · show w.sys.regs.nextTxState _ i = _
    rw [GbeTx.nextTxState, h.state, htwo]
    by_cases hend : k + 1 = 8 * o.size.toNat
    · rw [if_pos hend, beq_iff_eq.mpr (show 8 * o.size.toNat + 1 - k = 2 by omega)]
      rfl
    · rw [if_neg hend, beq_eq_false_iff_ne.mpr (show 8 * o.size.toNat + 1 - k ≠ 2 by omega)]
      rfl

theorem CpuSends.step {k : Nat} (h : CpuSends p w served o k) (hi : Fed w i)
    (hk : k + 1 < 8 * o.size.toNat) : CpuSends p (w.step p i) served o (k + 1) := by
  obtain ⟨htakes, hcurrent, hstate⟩ := h.next (p := p) (i := i) (by omega)
  obtain ⟨hctrl, hpacket⟩ := fifos_step (p := p) (i := i) (w := w) (by rw [h.state]; decide)
  have hsmall := o.size.isLt
  have haddr : w.sys.regs.cpuAddrNext i = BitVec.ofNat 11 (k + 1) := by
    rw [GbeTx.cpuAddrNext, h.state, h.addr]
    exact (BitVec.ofNat_add ..).symm
  rw [if_neg (by omega)] at hstate
  refine ⟨?_, hstate, .inr h.state, ?_, haddr, ?_, ?_, htakes, hcurrent⟩
  · rw [hctrl, hpacket]
    exact h.serving.step hi (by rw [hstate]; decide)
  · show w.sys.regs.nextTxCount _ _ i = _
    rw [GbeTx.nextTxCount, h.state, h.count,
      show 8 * o.size.toNat + 1 - (k + 1) = 8 * o.size.toNat + 1 - k - 1 by omega]
    exact BitVec.ofNat_sub_ofNat_of_le _ 1 (by omega) (by omega)
  · show (if w.startsCpu then _ else w.sending) = _
    rw [startsCpu_of_busy h.serving.busy]
    exact h.sending
  · show i.cpuBuffer w.sys.regs.cpuBufferSelReg (w.sys.regs.cpuAddrNext i) = _
    rw [haddr, hi.held (.inr h.state), h.sending]

theorem CpuSends.finish {k : Nat} (h : CpuSends p w served o k) (hi : Fed w i)
    (hk : k + 1 = 8 * o.size.toNat) : Idle p (w.step p i) (served ++ [.cpu o]) := by
  obtain ⟨htakes, hcurrent, hstate⟩ := h.next (p := p) (i := i) (by omega)
  obtain ⟨hctrl, hpacket⟩ := fifos_step (p := p) (i := i) (w := w) (by rw [h.state]; decide)
  rw [if_pos hk] at hstate
  refine h.serving.finish hi hctrl hpacket hstate htakes ?_
  rw [hcurrent, hk, ← length_bytes, List.take_length]
  rfl

/-! ## Whole runs -/

/-- The frame `r` is handed over, and the MAC has taken `k` bytes of it. -/
inductive Handing (p : GbeTxParams) (w : TxWatch) (served : List Request) : Request → Nat → Prop
  | appWaits (c : TxCtrl) (data : List (BitVec 8)) (cs : List TxCtrl) (rest : List (BitVec 8))
    (h : AppWaits p w served c data cs rest) : Handing p w served (.app c data) 0
  | appHeader (c : TxCtrl) (data : List (BitVec 8)) (cs : List TxCtrl) (rest : List (BitVec 8))
    (k : Nat) (h : AppHeader p w served c data cs rest k) (hpos : 0 < k) (hk : k < 42) :
    Handing p w served (.app c data) k
  | appSends (c : TxCtrl) (data : List (BitVec 8)) (cs : List TxCtrl) (rest : List (BitVec 8))
    (j : Nat) (h : AppSends p w served c data cs rest j) (hj : j < data.length) :
    Handing p w served (.app c data) (42 + j)
  | cpuWaits (o : CpuOffer) (h : CpuWaits p w served o) : Handing p w served (.cpu o) 0
  | cpuSends (o : CpuOffer) (k : Nat) (h : CpuSends p w served o k) (hpos : 0 < k)
    (hk : k < 8 * o.size.toNat) : Handing p w served (.cpu o) k

/-- What the observer sees of the frame. -/
theorem Handing.seen {k : Nat} (h : Handing p w served r k) :
    w.sys.regs.txState ≠ .idle ∧ k < (r.bytes p).length ∧ w.taking = decide (0 < k) ∧
      w.current = (r.bytes p).take k ∧ w.frames = served.map (Request.bytes p) := by
  have happ : ∀ c data, (Request.bytes p (.app c data)).length = 42 + data.length := by
    intro c data
    rw [Request.bytes, List.length_append, GbeTxParams.length_frameHeader]
  cases h with
  | appWaits c data cs rest h =>
    exact ⟨h.serving.busy, by rw [happ]; omega, h.taking, h.current, h.serving.frames⟩
  | appHeader c data cs rest k h hpos hk =>
    refine ⟨h.serving.busy, by rw [happ]; omega, ?_, ?_, h.serving.frames⟩
    · rw [h.taking, decide_eq_true hpos]
    · rw [h.current, Request.bytes,
        List.take_append_of_le_length (by rw [GbeTxParams.length_frameHeader]; omega)]
  | appSends c data cs rest j h hj =>
    refine ⟨h.serving.busy, by rw [happ]; omega, ?_, h.current, h.serving.frames⟩
    rw [h.taking, decide_eq_true (by omega)]
  | cpuWaits o h =>
    have hsize := h.size
    refine ⟨h.serving.busy, ?_, h.taking, h.current, h.serving.frames⟩
    rw [Request.bytes, length_bytes]
    omega
  | cpuSends o k h hpos hk =>
    refine ⟨h.serving.busy, ?_, ?_, h.current, h.serving.frames⟩
    · rw [Request.bytes, length_bytes]
      exact hk
    · rw [h.taking, decide_eq_true hpos]

/-- In a cycle the MAC waits for the frame, or takes a byte of it, the last one in the end. -/
theorem Handing.step {k : Nat} (h : Handing p w served r k) (hi : Fed w i) :
    (k = 0 ∧ Handing p (w.step p i) served r 0) ∨
      (k + 1 < (r.bytes p).length ∧ Handing p (w.step p i) served r (k + 1)) ∨
      (k + 1 = (r.bytes p).length ∧ Idle p (w.step p i) (served ++ [r])) := by
  have happ : ∀ c data, (Request.bytes p (.app c data)).length = 42 + data.length := by
    intro c data
    rw [Request.bytes, List.length_append, GbeTxParams.length_frameHeader]
  have hcpu : ∀ o, (Request.bytes p (.cpu o)).length = 8 * o.size.toNat := length_bytes
  cases h with
  | appWaits c data cs rest h =>
    by_cases hack : i.macTxAck = true
    · refine .inr (.inl ⟨by rw [happ]; omega, ?_⟩)
      exact .appHeader _ _ _ _ _ (h.take hi hack) (by omega) (by omega)
    · exact .inl ⟨rfl, .appWaits _ _ _ _ (h.wait hi (Bool.not_eq_true _ ▸ hack))⟩
  | appHeader c data cs rest k h hpos hk =>
    obtain ⟨hlen, hsize⟩ := h.serving.size
    by_cases hlast : k = 41
    · subst hlast
      exact .inr (.inl ⟨by rw [happ]; omega, .appSends _ _ _ _ _ (h.last hi) (by omega)⟩)
    · refine .inr (.inl ⟨by rw [happ]; omega, ?_⟩)
      exact .appHeader _ _ _ _ _ (h.step hi (by omega)) (by omega) (by omega)
  | appSends c data cs rest j h hj =>
    by_cases hlast : j + 1 = data.length
    · exact .inr (.inr ⟨by rw [happ]; omega, h.finish hi hlast⟩)
    · exact .inr (.inl ⟨by rw [happ]; omega, .appSends _ _ _ _ _ (h.step hi (by omega)) (by omega)⟩)
  | cpuWaits o h =>
    have hsize := h.size
    by_cases hack : i.macTxAck = true
    · exact .inr (.inl ⟨by rw [hcpu]; omega, .cpuSends _ _ (h.take hi hack) (by omega) (by omega)⟩)
    · exact .inl ⟨rfl, .cpuWaits _ (h.wait hi (Bool.not_eq_true _ ▸ hack))⟩
  | cpuSends o k h hpos hk =>
    by_cases hlast : k + 1 = 8 * o.size.toNat
    · exact .inr (.inr ⟨by rw [hcpu]; exact hlast, h.finish hi hlast⟩)
    · refine .inr (.inl ⟨by rw [hcpu]; omega, ?_⟩)
      exact .cpuSends _ _ (h.step hi (by omega)) (by omega) (by omega)

/-- Where the core is in its work. -/
inductive Working (p : GbeTxParams) (w : TxWatch) : Prop
  | idle (served : List Request) (h : Idle p w served)
  | handing (served : List Request) (r : Request) (k : Nat) (h : Handing p w served r k)

/-- What can be started is started. -/
theorem Idle.begins (h : Idle p w served) (hi : Fed w i)
    (hstart : w.sys.regs.cpuStarts = true ∨ w.sys.regs.appStarts w.sys.ctrlFifo.isEmpty = true) :
    ∃ r, Handing p (w.step p i) served r 0 := by
  by_cases hcpu : w.startsCpu = true
  · exact ⟨_, .cpuWaits _ (h.start_cpu hi hcpu)⟩
  · rw [Bool.not_eq_true] at hcpu
    have hnot : w.sys.regs.cpuStarts = false := by
      rw [startsCpu, h.state] at hcpu
      exact hcpu
    have happ := hstart.resolve_left (by rw [hnot]; exact Bool.false_ne_true)
    cases hctrl : w.sys.ctrlFifo with
    | nil =>
      rw [hctrl] at happ
      exact absurd happ Bool.false_ne_true
    | cons c cs =>
      rw [hctrl] at happ
      exact ⟨_, .appWaits _ _ _ _ (h.start_app hi hcpu hctrl happ)⟩

/-- Where nothing can be started the core stays idle. -/
theorem Idle.waits (h : Idle p w served) (hi : Fed w i)
    (hstart : ¬(w.sys.regs.cpuStarts = true ∨ w.sys.regs.appStarts w.sys.ctrlFifo.isEmpty = true)) :
    Idle p (w.step p i) served := by
  rw [not_or, Bool.not_eq_true, Bool.not_eq_true] at hstart
  refine h.stay hi ?_ hstart.2
  rw [startsCpu, hstart.1, Bool.and_false]

theorem Idle.step (h : Idle p w served) (hi : Fed w i) : Working p (w.step p i) := by
  by_cases hstart : w.sys.regs.cpuStarts = true ∨
      w.sys.regs.appStarts w.sys.ctrlFifo.isEmpty = true
  · obtain ⟨r, hr⟩ := h.begins hi hstart
    exact .handing _ _ _ hr
  · exact .idle _ (h.waits hi hstart)

theorem Working.step (h : Working p w) (hi : Fed w i) : Working p (w.step p i) := by
  cases h with
  | idle served h => exact h.step hi
  | handing served r k h =>
    rcases h.step (p := p) hi with ⟨-, h⟩ | ⟨-, h⟩ | ⟨-, h⟩
    · exact .handing _ _ _ h
    · exact .handing _ _ _ h
    · exact .idle _ h

theorem Working.run : ∀ (is : List GbeTxIn) (w : TxWatch), Working p w → AllFed p w is →
    Working p (w.run p is)
  | [], _, h, _ => h
  | i :: is, w, h, hall => Working.run is (w.step p i) (h.step hall.1) hall.2

/-- Once the MAC has taken a byte it takes one in each cycle, up to the last. -/
theorem Handing.run_finish : ∀ (is : List GbeTxIn) (w : TxWatch) (k : Nat),
    Handing p w served r k → 0 < k → AllFed p w is → k + is.length = (r.bytes p).length →
    Idle p (w.run p is) (served ++ [r])
  | [], _, _, h, _, _, hlen => absurd hlen (by have := h.seen.2.1; simp; omega)
  | i :: is, w, k, h, hpos, hall, hlen => by
    rw [List.length_cons] at hlen
    rcases h.step (p := p) hall.1 with ⟨hzero, -⟩ | ⟨-, hnext⟩ | ⟨hend, hidle⟩
    · omega
    · exact Handing.run_finish is (w.step p i) (k + 1) hnext (by omega) hall.2 (by omega)
    · have hnil : is = [] := List.length_eq_zero_iff.mp (by omega)
      subst hnil
      exact hidle

end TxWatch

end MlibDevel.Onegbe
