import MlibDevel.TenGbe.Tx
import Mathlib.Data.List.Basic
import Mathlib.Tactic.ByContra

/-!
# The frame that is sent

Whatever else happens meanwhile (further words for the FIFOs, requests of the CPU, the time the MAC
takes to start), the words sent for an entry of the control FIFO are those of the header and of the
data shifted by two bytes.
-/

namespace MlibDevel.TenGbe

open Lib

/-- The data, behind two bytes, and the two bytes left at the end. -/
def payload : BitVec 16 → List (BitVec 64) → List MacTx
  | l, [] => [⟨TxRegs.dataWord l 0, 0x03⟩]
  | l, d :: ws => ⟨TxRegs.dataWord l d, 0xff⟩ :: payload (d.extractLsb' 0 16) ws

/-- The destination MAC address of a frame to `ip`. -/
def TxParams.destMac (p : TxParams) (ip : BitVec 32) : BitVec 48 :=
  if isMulticast ip then
    ofBytes48 0x01#8 0x00#8 0x5e#8 (0#1 ++ ip.extractLsb' 16 7) (byte ip 1) (byte ip 0)
  else p.arpCache (p.packetArpCacheAddr ip)

/-- The IP length of a frame. -/
def Ctrl.ipLength (c : Ctrl) : BitVec 16 := (c.size.extractLsb' 0 13 ++ 0#3) + 28#16

/-- The UDP length of a frame. -/
def Ctrl.udpLength (c : Ctrl) : BitVec 16 := (c.size.extractLsb' 0 13 ++ 0#3) + 8#16

/-- The sum of the words of the IP header, in `ip_checksum_0`. -/
def TxParams.headerSum (p : TxParams) (c : Ctrl) : BitVec 18 :=
  (0x4500#16).setWidth 18 + c.ipLength.setWidth 18 + 0 + (0x4000#16).setWidth 18 +
    (p.ttl ++ 0x11#8).setWidth 18 +
    (p.localIp.extractLsb' 0 16).setWidth 18 + (p.localIp.extractLsb' 16 16).setWidth 18 +
    (c.ip.extractLsb' 0 16).setWidth 18 + (c.ip.extractLsb' 16 16).setWidth 18

/-- The carries are added again, in `ip_checksum_1`. -/
def foldCarries (sum : BitVec 18) : BitVec 17 :=
  (sum.extractLsb' 0 16).setWidth 17 + (sum.extractLsb' 16 2).setWidth 17

/-- The carry is added again and the sum inverted, in `ip_checksum`. -/
def invertSum (sum : BitVec 17) : BitVec 16 :=
  ~~~(sum.extractLsb' 0 16 + (sum.extractLsb' 16 1).setWidth 16)

/-- The checksum of a frame. -/
def TxParams.ipChecksum (p : TxParams) (c : Ctrl) : BitVec 16 :=
  invertSum (foldCarries (p.headerSum c))

/-- The words of the header up to the UDP length. -/
def header (p : TxParams) (c : Ctrl) (ipLength ipChecksum udpLength : BitVec 16) : List MacTx :=
  let mac := p.destMac c.ip
  [⟨ofBytes (byte p.localMac 4) (byte p.localMac 5) (byte mac 0) (byte mac 1) (byte mac 2)
      (byte mac 3) (byte mac 4) (byte mac 5), 0xff⟩,
    ⟨ofBytes 0x00#8 0x45#8 0x00#8 0x08#8 (byte p.localMac 0) (byte p.localMac 1)
      (byte p.localMac 2) (byte p.localMac 3), 0xff⟩,
    ⟨ofBytes 0x11#8 p.ttl 0x00#8 0x40#8 0x00#8 0x00#8 (byte ipLength 0) (byte ipLength 1), 0xff⟩,
    ⟨ofBytes (byte c.ip 2) (byte c.ip 3) (byte p.localIp 0) (byte p.localIp 1) (byte p.localIp 2)
      (byte p.localIp 3) (byte ipChecksum 0) (byte ipChecksum 1), 0xff⟩,
    ⟨ofBytes (byte udpLength 0) (byte udpLength 1) (byte c.port 0) (byte c.port 1)
      (byte p.localPort 0) (byte p.localPort 1) (byte c.ip 0) (byte c.ip 1), 0xff⟩]

/-! ## What the application writes -/

/-- `data_count` counts the words before the one in the registers. -/
def AppTx.counted (s : AppTx) : BitVec 16 := if s.validR then s.dataCount + 1 else s.dataCount

/-- A frame: words with gaps between them, the last one marked. -/
theorem AppTx.writes : ∀ (init : List AppTxIn) (s : AppTx) (last flush : AppTxIn),
    s.ctrlFifoEn = false → (∀ i ∈ init, (i.valid && i.endOfFrame) = false) →
    last.valid = true → last.endOfFrame = true →
    s.packetWrites (init ++ [last, flush])
        = s.packetWr ++ (init.filter AppTxIn.valid).map AppTxIn.data ++ [last.data] ∧
      s.ctrlWrites (init ++ [last, flush])
        = [⟨s.counted + BitVec.ofNat 16 (init.filter AppTxIn.valid).length, last.destPort,
            last.destIp⟩]
  | [], s, last, flush, hen, _, hv, he => by
    unfold AppTx.counted
    simp [AppTx.packetWrites, AppTx.ctrlWrites, AppTx.packetWr, AppTx.ctrlWr,
      AppTx.edge, hen, hv, he]
  | i :: init, s, last, flush, hen, hinit, hv, he => by
    have hi := hinit i List.mem_cons_self
    have hen' : (s.edge i).ctrlFifoEn = false := hi
    have hcount : (s.edge i).dataCount = s.counted := by
      unfold AppTx.edge AppTx.counted
      rw [hen]
      rfl
    have hcounted : (s.edge i).counted = if i.valid then s.counted + 1 else s.counted := by
      show (if i.valid then (s.edge i).dataCount + 1 else (s.edge i).dataCount) = _
      rw [hcount]
    obtain ⟨hp, hc⟩ := writes init (s.edge i) last flush hen'
      (fun j hj => hinit j (List.mem_cons_of_mem _ hj)) hv he
    constructor
    · show s.packetWr ++ (s.edge i).packetWrites (init ++ [last, flush]) = _
      rw [hp]
      cases hiv : i.valid <;> simp [AppTx.packetWr, AppTx.edge, hiv]
    · show s.ctrlWr ++ (s.edge i).ctrlWrites (init ++ [last, flush]) = _
      rw [hc, hcounted]
      unfold AppTx.ctrlWr
      rw [hen]
      cases hiv : i.valid with
      | false => simp [hiv]
      | true =>
        have hone : s.counted + 1 + BitVec.ofNat 16 (init.filter AppTxIn.valid).length
            = s.counted + BitVec.ofNat 16 ((init.filter AppTxIn.valid).length + 1) := by
          rw [BitVec.ofNat_add, BitVec.add_assoc, BitVec.add_comm 1]
          rfl
        rw [List.filter_cons_of_pos hiv, List.length_cons, ← hone]
        rfl

/-- The registers that depend on the state. -/
theorem TxRegs.edge_eq_latch (p : TxParams) (s : TxRegs) (ctrlFifo : List Ctrl)
    (packetData : BitVec 64) (i : TxIn) :
    s.edge p ctrlFifo packetData i =
      { s.latch p (ctrlFifo.headD ⟨0, 0, 0⟩) packetData i with
        txState := (s.edge p ctrlFifo packetData i).txState
        packetRdReg := (s.edge p ctrlFifo packetData i).packetRdReg
        macDataValid := (s.edge p ctrlFifo packetData i).macDataValid
        txSize := (s.edge p ctrlFifo packetData i).txSize
        txIpTtl := (s.edge p ctrlFifo packetData i).txIpTtl
        macCpuAckReg := (s.edge p ctrlFifo packetData i).macCpuAckReg
        macCpuAddrReg := (s.edge p ctrlFifo packetData i).macCpuAddrReg } := by
  unfold edge
  cases s.txState <;> dsimp only <;> (repeat' split) <;> rfl

/-- The lengths and the sum of the entry at the front are computed in every state. -/
theorem TxRegs.edge_sums {p : TxParams} {s : TxRegs} {ctrlFifo : List Ctrl} {c : Ctrl}
    (hctrl : ctrlFifo.headD ⟨0, 0, 0⟩ = c) (packetData : BitVec 64) (i : TxIn) :
    (s.edge p ctrlFifo packetData i).ipLength = c.ipLength ∧
      (s.edge p ctrlFifo packetData i).udpLength = c.udpLength ∧
      (s.ipLength = c.ipLength → s.txIpTtl = p.ttl →
        (s.edge p ctrlFifo packetData i).ipChecksum0 = p.headerSum c) ∧
      (s.edge p ctrlFifo packetData i).ipChecksum1 = foldCarries s.ipChecksum0 ∧
      (s.edge p ctrlFifo packetData i).ipChecksum = invertSum s.ipChecksum1 := by
  have hedge := s.edge_eq_latch p ctrlFifo packetData i
  rw [hctrl] at hedge
  refine ⟨congrArg ipLength hedge, congrArg udpLength hedge, ?_, congrArg ipChecksum1 hedge,
    congrArg ipChecksum hedge⟩
  intro hlen httl
  refine (congrArg ipChecksum0 hedge).trans ?_
  unfold TxParams.headerSum
  rw [← hlen, ← httl]
  rfl

namespace TxSys

/-- The state after a run. -/
def after (p : TxParams) (s : TxSys) (is : List TxIn) : TxSys := is.foldl (step p) s

theorem sent_cons (p : TxParams) (s : TxSys) (i : TxIn) (is : List TxIn) :
    s.sent p (i :: is) = s.sends p i ++ (s.step p i).sent p is := rfl

theorem after_cons (p : TxParams) (s : TxSys) (i : TxIn) (is : List TxIn) :
    s.after p (i :: is) = (s.step p i).after p is := rfl

theorem sent_append (p : TxParams) : ∀ (is js : List TxIn) (s : TxSys),
    s.sent p (is ++ js) = s.sent p is ++ (s.after p is).sent p js
  | [], _, _ => rfl
  | i :: is, js, s => by
    have ih := sent_append p is js (s.step p i)
    rw [List.cons_append, sent_cons, ih, sent_cons, after_cons, List.append_assoc]

theorem after_append (p : TxParams) (is js : List TxIn) (s : TxSys) :
    s.after p (is ++ js) = (s.after p is).after p js := List.foldl_append

/-- Nothing is being sent. -/
structure Idle (s : TxSys) : Prop where
  state : s.regs.txState = .idle
  valid : s.regs.macDataValid = 0
  rd : s.regs.packetRdReg = false

/-- A frame is being sent: its entry and the words to come are at the front of the FIFOs. -/
structure Sending (p : TxParams) (s : TxSys) (c : Ctrl) (ws : List (BitVec 64)) : Prop where
  valid : s.regs.macDataValid = 0xff
  size : s.regs.txSize.toNat + 1 = ws.length
  arp : s.regs.packetArpCacheData = p.arpCache (p.packetArpCacheAddr c.ip)
  ttl : s.regs.txIpTtl = p.ttl
  ctrl : s.ctrlFifo.head? = some c
  packet : ws <+: s.packetFifo

variable {p : TxParams} {s : TxSys} {c : Ctrl} {ws : List (BitVec 64)} {i : TxIn}

theorem ctrl_headD (h : s.ctrlFifo.head? = some c) (d : Ctrl) : s.ctrlFifo.headD d = c := by
  rw [List.headD_eq_head?_getD, h]
  rfl

/-- The entry stays until the last word. -/
theorem step_ctrlFifo (h : s.regs.txState ≠ .sendLast) :
    (s.step p i).ctrlFifo = s.ctrlFifo ++ i.ctrlWr := by
  unfold step
  simp [h]

theorem step_ctrl (hs : s.regs.txState ≠ .sendLast) (h : s.ctrlFifo.head? = some c) :
    (s.step p i).ctrlFifo.head? = some c := by
  rw [step_ctrlFifo hs, List.head?_append, h]
  rfl

theorem step_packetFifo (hrd : s.regs.packetRdReg = false) :
    (s.step p i).packetFifo = s.packetFifo ++ i.packetWr := by
  unfold step
  simp [hrd]

theorem step_packetFifo_read (hrd : s.regs.packetRdReg = true) :
    (s.step p i).packetFifo = s.packetFifo.tail ++ i.packetWr := by
  unfold step
  simp [hrd]

/-- The words stay while they are not read. -/
theorem step_packet (hrd : s.regs.packetRdReg = false) (h : ws <+: s.packetFifo) :
    ws <+: (s.step p i).packetFifo := by
  rw [step_packetFifo hrd]
  exact h.trans (List.prefix_append _ _)

/-- The word that is read goes. -/
theorem step_packet_read {d : BitVec 64} (hrd : s.regs.packetRdReg = true)
    (h : d :: ws <+: s.packetFifo) : ws <+: (s.step p i).packetFifo := by
  obtain ⟨rest, hrest⟩ := h
  rw [step_packetFifo_read hrd, ← hrest]
  show ws <+: (ws ++ rest) ++ i.packetWr
  rw [List.append_assoc]
  exact List.prefix_append _ _

theorem packet_headD {d : BitVec 64} (h : d :: ws <+: s.packetFifo) : s.packetFifo.headD 0 = d := by
  obtain ⟨rest, hrest⟩ := h
  rw [← hrest]
  rfl

/-! ## The header -/

/-- The registers that hold a frame's entry, in every state but the last. -/
theorem Sending.keep (h : Sending p s c ws) (hs : s.regs.txState ≠ .sendLast)
    (hrd : s.regs.packetRdReg = false)
    (hvalid : (s.step p i).regs.macDataValid = s.regs.macDataValid)
    (hsize : (s.step p i).regs.txSize = s.regs.txSize)
    (httl : (s.step p i).regs.txIpTtl = s.regs.txIpTtl)
    (harp : (s.step p i).regs.packetArpCacheData = p.arpCache
      (p.packetArpCacheAddr (s.ctrlFifo.headD ⟨0, 0, 0⟩).ip)) : Sending p (s.step p i) c ws where
  valid := by rw [hvalid, h.valid]
  size := by rw [hsize, h.size]
  arp := by rw [harp, ctrl_headD h.ctrl]
  ttl := by rw [httl, h.ttl]
  ctrl := step_ctrl hs h.ctrl
  packet := step_packet hrd h.packet

/-- A word that is not held back is sent. -/
theorem Sending.sends (h : Sending p s c ws) (hheld : (s.held && !i.macTxAck) = false) :
    s.sends p i = [⟨s.regs.macTxData p c (s.packetFifo.headD 0) i, 0xff⟩] := by
  unfold TxSys.sends
  rw [h.valid, hheld, ctrl_headD h.ctrl]
  rfl

theorem Sending.step_sums (h : Sending p s c ws) (i : TxIn) :
    (s.step p i).regs.ipLength = c.ipLength ∧ (s.step p i).regs.udpLength = c.udpLength ∧
      (s.regs.ipLength = c.ipLength → (s.step p i).regs.ipChecksum0 = p.headerSum c) ∧
      (s.step p i).regs.ipChecksum1 = foldCarries s.regs.ipChecksum0 ∧
      (s.step p i).regs.ipChecksum = invertSum s.regs.ipChecksum1 := by
  obtain ⟨hip, hudp, hsum, hfold, hinvert⟩ :=
    TxRegs.edge_sums (p := p) (s := s.regs) (ctrl_headD h.ctrl _) (s.packetFifo.headD 0) i
  exact ⟨hip, hudp, fun hlen => hsum hlen h.ttl, hfold, hinvert⟩

/-- The states of the header in which nothing is decided, and the next one. -/
def follows : TxState → Option TxState
  | .sendHdr2 => some .sendHdr3
  | .sendHdr3 => some .sendHdr4
  | .sendHdr4 => some .sendHdr5
  | .sendHdr5 => some .sendHdr6
  | _ => none

/-- A word of the header is sent; with the last of them the reading of the data starts. -/
theorem Sending.header_step (h : Sending p s c ws) {st : TxState}
    (hf : follows s.regs.txState = some st) (hrd : s.regs.packetRdReg = false) (i : TxIn) :
    s.sends p i = [⟨s.regs.macTxData p c (s.packetFifo.headD 0) i, 0xff⟩] ∧
      Sending p (s.step p i) c ws ∧ (s.step p i).regs.txState = st ∧
      (s.step p i).regs.packetRdReg = decide (st = .sendHdr6) := by
  have hedge : (s.step p i).regs
      = { s.regs.latch p (s.ctrlFifo.headD ⟨0, 0, 0⟩) (s.packetFifo.headD 0) i with
          txState := st, packetRdReg := decide (st = .sendHdr6) } := by
    show s.regs.edge p s.ctrlFifo (s.packetFifo.headD 0) i = _
    unfold TxRegs.edge
    cases hs : s.regs.txState <;> rw [hs] at hf <;> cases hf <;> rfl
  have hnot : s.regs.txState ≠ .sendLast := by
    intro he
    rw [he] at hf
    cases hf
  have hheld : s.held = false := by
    unfold held
    cases hs : s.regs.txState <;> rw [hs] at hf <;> cases hf <;> rfl
  refine ⟨h.sends (by rw [hheld]; rfl), ?_, ?_, ?_⟩
  · refine h.keep hnot hrd ?_ ?_ ?_ ?_ <;> rw [hedge] <;> rfl
  · rw [hedge]
  · rw [hedge]

/-- The words from the second to the fifth: the checksum is ready when it is sent. -/
theorem Sending.header_words (h : Sending p s c ws) (hs : s.regs.txState = .sendHdr2)
    (hrd : s.regs.packetRdReg = false) (hsum : s.regs.ipChecksum0 = p.headerSum c)
    (i₂ i₃ i₄ i₅ : TxIn) :
    s.sent p [i₂, i₃, i₄, i₅] = (header p c c.ipLength (p.ipChecksum c) c.udpLength).tail ∧
      Sending p (s.after p [i₂, i₃, i₄, i₅]) c ws ∧
      (s.after p [i₂, i₃, i₄, i₅]).regs.txState = .sendHdr6 ∧
      (s.after p [i₂, i₃, i₄, i₅]).regs.packetRdReg = true ∧
      (s.after p [i₂, i₃, i₄, i₅]).ctrlFifo
        = s.ctrlFifo ++ [i₂, i₃, i₄, i₅].flatMap TxIn.ctrlWr ∧
      (s.after p [i₂, i₃, i₄, i₅]).packetFifo
        = s.packetFifo ++ [i₂, i₃, i₄, i₅].flatMap TxIn.packetWr := by
  have hf₂ : follows s.regs.txState = some .sendHdr3 := by rw [hs]; rfl
  obtain ⟨hsend₂, h₃, hs₃, hrd₃⟩ := h.header_step hf₂ hrd i₂
  have hf₃ : follows (s.step p i₂).regs.txState = some .sendHdr4 := by rw [hs₃]; rfl
  obtain ⟨hsend₃, h₄, hs₄, hrd₄⟩ := h₃.header_step hf₃ hrd₃ i₃
  have hf₄ : follows ((s.step p i₂).step p i₃).regs.txState = some .sendHdr5 := by rw [hs₄]; rfl
  obtain ⟨hsend₄, h₅, hs₅, hrd₅⟩ := h₄.header_step hf₄ hrd₄ i₄
  have hf₅ : follows (((s.step p i₂).step p i₃).step p i₄).regs.txState = some .sendHdr6 := by
    rw [hs₅]; rfl
  obtain ⟨hsend₅, h₆, hs₆, hrd₆⟩ := h₅.header_step hf₅ hrd₅ i₅
  have httl := h₃.ttl
  obtain ⟨hlen, -, -, hfold, -⟩ := h.step_sums i₂
  obtain ⟨-, -, -, -, hck⟩ := h₃.step_sums i₃
  obtain ⟨-, hudp, -⟩ := h₄.step_sums i₄
  rw [hfold, hsum] at hck
  refine ⟨?_, h₆, hs₆, hrd₆, ?_, ?_⟩
  · rw [sent_cons, sent_cons, sent_cons, sent_cons, hsend₂, hsend₃, hsend₄, hsend₅]
    unfold TxRegs.macTxData
    rw [hs, hs₃, hs₄, hs₅, httl, hlen, hck, hudp]
    rfl
  · rw [after_cons, after_cons, after_cons, after_cons]
    show (TxSys.step p _ i₅).ctrlFifo = _
    rw [step_ctrlFifo (by rw [hs₅]; simp), step_ctrlFifo (by rw [hs₄]; simp),
      step_ctrlFifo (by rw [hs₃]; simp), step_ctrlFifo (by rw [hs]; simp)]
    simp
  · rw [after_cons, after_cons, after_cons, after_cons]
    show (TxSys.step p _ i₅).packetFifo = _
    rw [step_packetFifo hrd₅, step_packetFifo hrd₄, step_packetFifo hrd₃, step_packetFifo hrd]
    simp

/-- The state in which the first word stands. -/
def firstState (ip : BitVec 32) : TxState :=
  if isMulticast ip then .sendHdr1Multicast else .sendHdr1

theorem firstState_ne (ip : BitVec 32) : firstState ip ≠ .sendLast := by
  unfold firstState
  split <;> simp

theorem held_firstState (hs : s.regs.txState = firstState c.ip) : s.held = true := by
  unfold held
  rw [hs]
  unfold firstState
  split <;> rfl

/-- A frame is started. -/
theorem Idle.first (h : Idle s) (hctrl : s.ctrlFifo.head? = some c) (hpacket : ws <+: s.packetFifo)
    (hsize : (c.size - 1).toNat + 1 = ws.length)
    (hstart : i.localEnableRetimed = true ∧ i.appOverflowRetimed = false)
    (hcpu : (!s.regs.macCpuAckReg && i.macCpuPending) = false) :
    s.sends p i = [] ∧ Sending p (s.step p i) c ws ∧
      (s.step p i).regs.txState = firstState c.ip ∧ (s.step p i).regs.packetRdReg = false := by
  have hempty : s.ctrlFifo.isEmpty = false := by
    cases hl : s.ctrlFifo with
    | nil =>
      rw [hl] at hctrl
      cases hctrl
    | cons _ _ => rfl
  have hedge : (s.step p i).regs
      = { s.regs.latch p c (s.packetFifo.headD 0) i with
          macCpuAddrReg := 0, macDataValid := 0xff, txSize := c.size - 1, txIpTtl := p.ttl,
          txState := firstState c.ip } := by
    show s.regs.edge p s.ctrlFifo (s.packetFifo.headD 0) i = _
    unfold TxRegs.edge TxRegs.appStarts
    rw [h.state, hempty, hstart.1, hstart.2, hcpu, ctrl_headD hctrl]
    rfl
  refine ⟨?_, ⟨?_, ?_, ?_, ?_, step_ctrl (by rw [h.state]; simp) hctrl, step_packet h.rd hpacket⟩,
    ?_, ?_⟩
  · unfold TxSys.sends
    rw [h.valid]
    rfl
  · rw [hedge]
  · rw [hedge]
    exact hsize
  · rw [hedge]
    rfl
  · rw [hedge]
  · rw [hedge]
  · rw [hedge]
    rfl

/-- The first word stands until it is acknowledged. -/
theorem Sending.first_step (h : Sending p s c ws) (hs : s.regs.txState = firstState c.ip)
    (hrd : s.regs.packetRdReg = false) (i : TxIn) :
    Sending p (s.step p i) c ws ∧ (s.step p i).regs.packetRdReg = false ∧
      (s.step p i).regs.txState = if i.macTxAck then .sendHdr2 else firstState c.ip := by
  have hedge : ∃ st, (s.step p i).regs
      = { s.regs.latch p (s.ctrlFifo.headD ⟨0, 0, 0⟩) (s.packetFifo.headD 0) i with
          txState := st } ∧ st = if i.macTxAck then .sendHdr2 else firstState c.ip := by
    refine ⟨(s.step p i).regs.txState, ?_, ?_⟩
    · show s.regs.edge p s.ctrlFifo (s.packetFifo.headD 0) i = _
      unfold step TxRegs.edge
      dsimp only
      rw [hs]
      unfold firstState
      cases isMulticast c.ip <;> cases i.macTxAck <;> rfl
    · show (s.regs.edge p s.ctrlFifo (s.packetFifo.headD 0) i).txState = _
      unfold TxRegs.edge
      dsimp only
      rw [← hs]
      unfold firstState at hs
      cases hm : isMulticast c.ip <;> rw [hm] at hs <;> cases hack : i.macTxAck <;> simp [hs] <;>
        exact hs
  obtain ⟨st, hedge, hst⟩ := hedge
  refine ⟨?_, ?_, ?_⟩
  · refine h.keep (by rw [hs]; exact firstState_ne _) hrd ?_ ?_ ?_ ?_ <;> rw [hedge] <;> rfl
  · rw [hedge]
    rfl
  · rw [hedge, hst]

/-- While the MAC does not acknowledge, nothing is sent. -/
theorem Sending.waits : ∀ (is : List TxIn) (s : TxSys), Sending p s c ws →
    s.regs.txState = firstState c.ip → s.regs.packetRdReg = false → s.regs.ipLength = c.ipLength →
    (∀ i ∈ is, i.macTxAck = false) →
    s.sent p is = [] ∧ Sending p (s.after p is) c ws ∧
      (s.after p is).regs.txState = firstState c.ip ∧ (s.after p is).regs.packetRdReg = false ∧
      (s.after p is).regs.ipLength = c.ipLength ∧
      (s.after p is).ctrlFifo = s.ctrlFifo ++ is.flatMap TxIn.ctrlWr ∧
      (s.after p is).packetFifo = s.packetFifo ++ is.flatMap TxIn.packetWr
  | [], s, h, hs, hrd, hlen, _ =>
    ⟨rfl, h, hs, hrd, hlen, (List.append_nil _).symm, (List.append_nil _).symm⟩
  | i :: is, s, h, hs, hrd, hlen, hack => by
    have hi := hack i List.mem_cons_self
    obtain ⟨h', hrd', hs'⟩ := h.first_step hs hrd i
    rw [hi] at hs'
    obtain ⟨hsent, hsending, hstate, hread, hlen', hctrl, hpacket⟩ :=
      waits is (s.step p i) h' hs' hrd' (h.step_sums i).1
        (fun j hj => hack j (List.mem_cons_of_mem _ hj))
    have hnone : s.sends p i = [] := by
      unfold TxSys.sends
      rw [held_firstState hs, hi]
      simp
    refine ⟨by rw [sent_cons, hnone, hsent]; rfl, hsending, hstate, hread, hlen', ?_, ?_⟩
    · rw [after_cons, hctrl, step_ctrlFifo (by rw [hs]; exact firstState_ne _)]
      simp
    · rw [after_cons, hpacket, step_packetFifo hrd]
      simp

/-- The word with the destination. -/
theorem Sending.first_word (h : Sending p s c ws) (hs : s.regs.txState = firstState c.ip)
    (hack : i.macTxAck = true) (ipLength ipChecksum udpLength : BitVec 16) :
    s.sends p i = (header p c ipLength ipChecksum udpLength).take 1 := by
  rw [h.sends (by rw [hack]; simp)]
  unfold TxRegs.macTxData header
  rw [hs]
  unfold firstState TxParams.destMac
  cases hm : isMulticast c.ip with
  | false =>
    simp only [Bool.false_eq_true, if_false, h.arp]
    rfl
  | true =>
    simp only [if_true, byte_ofBytes48_0, byte_ofBytes48_1, byte_ofBytes48_2, byte_ofBytes48_3,
      byte_ofBytes48_4, byte_ofBytes48_5]
    rfl

/-! ## The data -/

/-- The two bytes in front of the next word: zeros after the header, or those left over. -/
def leftovers (s : TxSys) : BitVec 16 :=
  if s.regs.txState = .sendHdr6 then 0 else s.regs.dataLeftovers

/-- A word of the data is sent. -/
theorem Sending.data_word {d : BitVec 64} (h : Sending p s c (d :: ws))
    (hs : s.regs.txState = .sendHdr6 ∨ s.regs.txState = .sendData) (i : TxIn) :
    s.sends p i = [⟨TxRegs.dataWord s.leftovers d, 0xff⟩] := by
  have hheld : s.held = false := by
    unfold held
    rcases hs with hs | hs <;> rw [hs] <;> rfl
  rw [h.sends (by rw [hheld]; rfl), packet_headD h.packet]
  unfold TxRegs.macTxData leftovers
  rcases hs with hs | hs
  · rw [hs, if_pos rfl]
    unfold TxRegs.dataWord
    rw [byte_zero, byte_zero]
    rfl
  · rw [hs]
    rfl

/-- The registers after a word of the data. -/
theorem data_edge (hs : s.regs.txState = .sendHdr6 ∨ s.regs.txState = .sendData) (i : TxIn) :
    (s.step p i).regs =
      if s.regs.txSize == 0 then
        { s.regs.latch p (s.ctrlFifo.headD ⟨0, 0, 0⟩) (s.packetFifo.headD 0) i with
          txSize := s.regs.txSize - 1, macDataValid := 0x03, txState := .sendLast }
      else
        { s.regs.latch p (s.ctrlFifo.headD ⟨0, 0, 0⟩) (s.packetFifo.headD 0) i with
          txSize := s.regs.txSize - 1, txState := .sendData, packetRdReg := true } := by
  show s.regs.edge p s.ctrlFifo (s.packetFifo.headD 0) i = _
  have hlatch : (s.regs.latch p (s.ctrlFifo.headD ⟨0, 0, 0⟩) (s.packetFifo.headD 0) i).txState
      = s.regs.txState := rfl
  unfold TxRegs.edge
  dsimp only
  generalize s.regs.latch p (s.ctrlFifo.headD ⟨0, 0, 0⟩) (s.packetFifo.headD 0) i = l at *
  rcases hs with hs | hs
  · rw [hs]
  · rw [hs] at hlatch ⊢
    cases l
    cases hlatch
    rfl

/-- After a word of the data that is not the last one, the next one is sent. -/
theorem Sending.data_step {d d' : BitVec 64} (h : Sending p s c (d :: d' :: ws))
    (hs : s.regs.txState = .sendHdr6 ∨ s.regs.txState = .sendData)
    (hrd : s.regs.packetRdReg = true) (i : TxIn) :
    Sending p (s.step p i) c (d' :: ws) ∧ (s.step p i).regs.txState = .sendData ∧
      (s.step p i).regs.packetRdReg = true ∧ (s.step p i).leftovers = d.extractLsb' 0 16 := by
  have hsize := h.size
  simp only [List.length_cons] at hsize
  have hne : (s.regs.txSize == 0) = false := by
    rw [beq_eq_false_iff_ne]
    intro he
    rw [he] at hsize
    simp at hsize
  have hedge := data_edge (p := p) hs i
  rw [hne] at hedge
  simp only [Bool.false_eq_true, if_false] at hedge
  have hlast : s.regs.txState ≠ .sendLast := by
    rcases hs with hs | hs <;> rw [hs] <;> simp
  refine ⟨⟨?_, ?_, ?_, ?_, step_ctrl hlast h.ctrl, step_packet_read hrd h.packet⟩, ?_, ?_, ?_⟩
  · rw [hedge]
    exact h.valid
  · rw [hedge]
    show (s.regs.txSize - 1).toNat + 1 = _
    have hlt := s.regs.txSize.isLt
    have hone : (1 : BitVec 16).toNat = 1 := rfl
    rw [BitVec.toNat_sub, hone, List.length_cons]
    omega
  · rw [hedge]
    show p.arpCache (p.packetArpCacheAddr (s.ctrlFifo.headD ⟨0, 0, 0⟩).ip) = _
    rw [ctrl_headD h.ctrl]
  · rw [hedge]
    exact h.ttl
  · rw [hedge]
  · rw [hedge]
  · unfold leftovers
    rw [hedge]
    show (s.packetFifo.headD 0).extractLsb' 0 16 = _
    rw [packet_headD h.packet]

/-- After the last word of the data, the two bytes left over are sent. -/
theorem Sending.last_step {d : BitVec 64} (h : Sending p s c [d])
    (hs : s.regs.txState = .sendHdr6 ∨ s.regs.txState = .sendData)
    (hrd : s.regs.packetRdReg = true) (i j : TxIn) :
    (s.step p i).sends p j = payload (d.extractLsb' 0 16) [] ∧
      Idle ((s.step p i).step p j) ∧
      ((s.step p i).step p j).ctrlFifo = (s.ctrlFifo ++ i.ctrlWr).tail ++ j.ctrlWr ∧
      ((s.step p i).step p j).packetFifo = s.packetFifo.tail ++ i.packetWr ++ j.packetWr := by
  have hzero : (s.regs.txSize == 0) = true := by
    have hsize := h.size
    simp only [List.length_cons, List.length_nil] at hsize
    rw [beq_iff_eq]
    exact BitVec.eq_of_toNat_eq (by simpa using hsize)
  have hedge := data_edge (p := p) hs i
  rw [if_pos hzero] at hedge
  have hlast : s.regs.txState ≠ .sendLast := by
    rcases hs with hs | hs <;> rw [hs] <;> simp
  have hctrl := step_ctrlFifo (p := p) (i := i) hlast
  have hleft : (s.step p i).regs.dataLeftovers = d.extractLsb' 0 16 := by
    rw [hedge]
    show (s.packetFifo.headD 0).extractLsb' 0 16 = _
    rw [packet_headD h.packet]
  have hst : (s.step p i).regs.txState = .sendLast := by rw [hedge]
  have hvalid : (s.step p i).regs.macDataValid = 0x03 := by rw [hedge]
  have hread : (s.step p i).regs.packetRdReg = false := by
    rw [hedge]
    rfl
  refine ⟨?_, ⟨?_, ?_, ?_⟩, ?_, ?_⟩
  · unfold TxSys.sends TxRegs.macTxData payload held TxRegs.dataWord
    rw [hst, hvalid, hleft]
    simp only [byte_zero]
    rfl
  · show ((s.step p i).regs.edge p _ _ j).txState = _
    unfold TxRegs.edge
    rw [hst]
  · show ((s.step p i).regs.edge p _ _ j).macDataValid = _
    unfold TxRegs.edge
    rw [hst]
  · show ((s.step p i).regs.edge p _ _ j).packetRdReg = _
    unfold TxRegs.edge
    rw [hst]
    rfl
  · rw [← hctrl]
    show (if (s.step p i).regs.txState == .sendLast then _ else _) ++ _ = _
    rw [hst]
    rfl
  · rw [step_packetFifo hread, step_packetFifo_read hrd]

/-- All the data of a frame. -/
theorem Sending.sent_payload :
    ∀ (ws : List (BitVec 64)) (d : BitVec 64) (is : List TxIn) (s : TxSys),
    Sending p s c (d :: ws) → s.regs.txState = .sendHdr6 ∨ s.regs.txState = .sendData →
    s.regs.packetRdReg = true → is.length = ws.length + 2 →
    s.sent p is = payload s.leftovers (d :: ws) ∧ Idle (s.after p is) ∧
      (s.after p is).ctrlFifo = s.ctrlFifo.tail ++ is.flatMap TxIn.ctrlWr ∧
      (s.after p is).packetFifo
        = s.packetFifo.drop (d :: ws).length ++ is.flatMap TxIn.packetWr
  | [], d, is, s, h, hs, hrd, hlen => by
    match is, hlen with
    | [i, j], _ =>
      obtain ⟨hlast, hidle, hctrl, hpacket⟩ := h.last_step hs hrd i j
      refine ⟨?_, hidle, ?_, ?_⟩
      · rw [sent_cons, sent_cons, h.data_word hs i, hlast]
        rfl
      · rw [after_cons, after_cons]
        show ((s.step p i).step p j).ctrlFifo = _
        rw [hctrl]
        -- the entry is at the front of the FIFO
        cases hl : s.ctrlFifo with
        | nil =>
          have hc := h.ctrl
          rw [hl] at hc
          cases hc
        | cons c' cs => simp
      · rw [after_cons, after_cons]
        show ((s.step p i).step p j).packetFifo = _
        rw [hpacket]
        simp
  | d' :: ws, d, is, s, h, hs, hrd, hlen => by
    match is, hlen with
    | i :: is, hlen =>
      obtain ⟨h', hs', hrd', hleft⟩ := h.data_step hs hrd i
      have hlen' : is.length = ws.length + 2 := by
        simp only [List.length_cons] at hlen
        omega
      obtain ⟨hsent, hidle, hctrl, hpacket⟩ :=
        sent_payload ws d' is (s.step p i) h' (Or.inr hs') hrd' hlen'
      have hnot : s.regs.txState ≠ .sendLast := by
        rcases hs with hs | hs <;> rw [hs] <;> simp
      refine ⟨?_, hidle, ?_, ?_⟩
      · rw [sent_cons, h.data_word hs i, hsent, hleft]
        rfl
      · rw [after_cons, hctrl, step_ctrlFifo hnot]
        cases hl : s.ctrlFifo with
        | nil =>
          have hc := h.ctrl
          rw [hl] at hc
          cases hc
        | cons c' cs => simp
      · obtain ⟨rest, hrest⟩ := h.packet
        rw [after_cons, hpacket, step_packetFifo_read hrd, ← hrest]
        simp

/--
**The words of a frame.**

From an idle state machine with an entry and its words at the front of the FIFOs, and whatever the
MAC, the CPU and the application do meanwhile, the header and the data are sent, and the entry and
the words go.
-/
theorem Idle.sent_words (h : Idle s) (hctrl : s.ctrlFifo.head? = some c)
    (hpacket : ws <+: s.packetFifo) (hsize : (c.size - 1).toNat + 1 = ws.length)
    {first acked : TxIn} {waits others : List TxIn}
    (hstart : first.localEnableRetimed = true ∧ first.appOverflowRetimed = false)
    (hcpu : (!s.regs.macCpuAckReg && first.macCpuPending) = false)
    (hwaits : ∀ i ∈ waits, i.macTxAck = false) (hacked : acked.macTxAck = true)
    (hothers : others.length = ws.length + 5) :
    s.sent p (first :: (waits ++ acked :: others))
        = header p c c.ipLength (p.ipChecksum c) c.udpLength ++ payload 0 ws ∧
      Idle (s.after p (first :: (waits ++ acked :: others))) ∧
      (s.after p (first :: (waits ++ acked :: others))).ctrlFifo
        = s.ctrlFifo.tail ++ (first :: (waits ++ acked :: others)).flatMap TxIn.ctrlWr ∧
      (s.after p (first :: (waits ++ acked :: others))).packetFifo
        = s.packetFifo.drop ws.length ++
          (first :: (waits ++ acked :: others)).flatMap TxIn.packetWr := by
  obtain ⟨hsent₀, h₁, hs₁, hrd₁⟩ := h.first (p := p) hctrl hpacket hsize hstart hcpu
  have hlen₁ : (s.step p first).regs.ipLength = c.ipLength :=
    (TxRegs.edge_sums (ctrl_headD hctrl _) _ first).1
  obtain ⟨hsent₁, h₂, hs₂, hrd₂, hlen₂, hc₂, hp₂⟩ := Sending.waits waits _ h₁ hs₁ hrd₁ hlen₁ hwaits
  obtain ⟨h₃, hrd₃, hs₃⟩ := h₂.first_step hs₂ hrd₂ acked
  have hsum := (h₂.step_sums acked).2.2.1 hlen₂
  rw [hacked] at hs₃
  match ws, others, hothers with
  | [], _, _ =>
    have hlen := h₁.size
    simp at hlen
  | d :: ws, i₂ :: i₃ :: i₄ :: i₅ :: is, hothers =>
    obtain ⟨hsent₃, h₆, hs₆, hrd₆, hc₆, hp₆⟩ := h₃.header_words hs₃ hrd₃ hsum i₂ i₃ i₄ i₅
    have hlen : is.length = ws.length + 2 := by
      simp only [List.length_cons] at hothers
      omega
    obtain ⟨hsent₆, hidle, hc₇, hp₇⟩ := Sending.sent_payload ws d is _ h₆ (Or.inl hs₆) hrd₆ hlen
    have hsplit : i₂ :: i₃ :: i₄ :: i₅ :: is = [i₂, i₃, i₄, i₅] ++ is := rfl
    have hzero :
      (((s.step p first).after p waits).step p acked |>.after p [i₂, i₃, i₄, i₅]).leftovers
        = 0 := by
      unfold leftovers
      rw [if_pos hs₆]
    refine ⟨?_, ?_, ?_, ?_⟩
    · rw [sent_cons, sent_append, sent_cons, hsplit, sent_append, hsent₀, hsent₁, hsent₃, hsent₆,
        hzero, h₂.first_word hs₂ hacked c.ipLength (p.ipChecksum c) c.udpLength]
      rfl
    · rw [after_cons, after_append, after_cons, hsplit, after_append]
      exact hidle
    · rw [after_cons, after_append, after_cons, hsplit, after_append, hc₇, hc₆,
        step_ctrlFifo (by rw [hs₂]; exact firstState_ne _), hc₂,
        step_ctrlFifo (by rw [h.state]; simp)]
      cases hl : s.ctrlFifo with
      | nil =>
        rw [hl] at hctrl
        cases hctrl
      | cons c' cs => simp
    · obtain ⟨rest, hrest⟩ := hpacket
      rw [after_cons, after_append, after_cons, hsplit, after_append, hp₇, hp₆,
        step_packetFifo hrd₂, hp₂, step_packetFifo h.rd, ← hrest]
      simp

/-- The words of a frame, whatever its lengths and its checksum are. -/
theorem Idle.sent_frame (h : Idle s) (hctrl : s.ctrlFifo.head? = some c)
    (hpacket : ws <+: s.packetFifo) (hsize : (c.size - 1).toNat + 1 = ws.length)
    {first acked : TxIn} {waits others : List TxIn}
    (hstart : first.localEnableRetimed = true ∧ first.appOverflowRetimed = false)
    (hcpu : (!s.regs.macCpuAckReg && first.macCpuPending) = false)
    (hwaits : ∀ i ∈ waits, i.macTxAck = false) (hacked : acked.macTxAck = true)
    (hothers : others.length = ws.length + 5) :
    ∃ ipLength ipChecksum udpLength,
      s.sent p (first :: (waits ++ acked :: others))
        = header p c ipLength ipChecksum udpLength ++ payload 0 ws ∧
      Idle (s.after p (first :: (waits ++ acked :: others))) ∧
      (s.after p (first :: (waits ++ acked :: others))).ctrlFifo
        = s.ctrlFifo.tail ++ (first :: (waits ++ acked :: others)).flatMap TxIn.ctrlWr := by
  obtain ⟨hsent, hidle, hfifo, -⟩ :=
    h.sent_words (p := p) hctrl hpacket hsize hstart hcpu hwaits hacked hothers
  exact ⟨_, _, _, hsent, hidle, hfifo⟩

end TxSys

end MlibDevel.TenGbe
