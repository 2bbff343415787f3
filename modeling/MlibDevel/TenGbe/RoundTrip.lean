import MlibDevel.TenGbe.RxApp
import MlibDevel.TenGbe.TxBytes

/-!
# From one application to another

What `tge_tx` sends for a frame of the application, `tge_rx` pushes for the application at the other
end, if it is configured for the destination.
-/

namespace MlibDevel.TenGbe

open Lib

/-- The words of a frame arrive. -/
theorem RxSys.Ready.frame {p : TxParams} {c : Ctrl} {q : LocalParams} {s : RxSys} (h : Ready s)
    (ha : Addressed p c q) (ipLength ipChecksum udpLength : BitVec 16) (d : BitVec 64)
    (ws : List (BitVec 64)) {is : List RxAppIn} {tail : List MacRx}
    (his : is.map (fun i => i.rx.mac) = deliver
      (header p c ipLength ipChecksum udpLength ++ payload 0 (d :: ws)) ++ tail)
    (htail : tail ≠ []) (hquiet : ∀ t ∈ tail, t.Quiet) (hlisten : ∀ i ∈ is, Listening q i) :
    s.packets is = tagged (d :: ws) ∧ s.sources is = [⟨p.localPort, p.localIp⟩] := by
  obtain ⟨w', rest, hw'⟩ := List.exists_cons_of_ne_nil
    (l := deliver (payload (d.extractLsb' 0 16) ws)) (by
      cases ws with
      | nil => simp [payload, deliver]
      | cons _ _ => rw [deliver_payload_cons]; simp)
  have hbad : w'.badFrame = false := by
    refine deliver_good (payload (d.extractLsb' 0 16) ws) w' ?_
    rw [hw']
    exact List.mem_cons_self
  obtain ⟨v₁, v₂, v₃, v₄, v₅, hv⟩ : ∃ v₁ v₂ v₃ v₄ v₅,
      header p c ipLength ipChecksum udpLength = [v₁, v₂, v₃, v₄, v₅] := ⟨_, _, _, _, _, rfl⟩
  have hword : ∀ (k : Nat) (v : MacTx), [v₁, v₂, v₃, v₄, v₅][k]? = some v →
      (header p c ipLength ipChecksum udpLength)[k]? = some v := by
    intro k v hk
    rw [hv]
    exact hk
  rw [deliver_append _ _ (payload_ne _ _), deliver_payload_cons, hw', hv] at his
  -- a cycle for each of the first seven words
  obtain ⟨i₁, is, rfl, hm₁, his⟩ := List.map_eq_cons_iff.mp his
  obtain ⟨i₂, is, rfl, hm₂, his⟩ := List.map_eq_cons_iff.mp his
  obtain ⟨i₃, is, rfl, hm₃, his⟩ := List.map_eq_cons_iff.mp his
  obtain ⟨i₄, is, rfl, hm₄, his⟩ := List.map_eq_cons_iff.mp his
  obtain ⟨i₅, is, rfl, hm₅, his⟩ := List.map_eq_cons_iff.mp his
  obtain ⟨i₆, is, rfl, hm₆, his⟩ := List.map_eq_cons_iff.mp his
  obtain ⟨i₇, is, rfl, hm₇, his⟩ := List.map_eq_cons_iff.mp his
  have h₀ := h.before
  have h₁ : Before (s.step i₁) .idle := h.word1 (w := v₁) hm₁
  obtain ⟨h₂, happ₂⟩ := h₁.word2 ha (hword 0 v₁ rfl) hm₁ (hlisten i₂ (by simp)) (v := v₂) hm₂
  obtain ⟨h₃, happ₃⟩ := h₂.word3 happ₂ (hword 1 v₂ rfl) hm₂ (hlisten i₃ (by simp)) (v := v₃) hm₃
  obtain ⟨h₄, happ₄⟩ := h₃.word4 happ₃ (hword 2 v₃ rfl) hm₃ (hlisten i₄ (by simp)) (v := v₄) hm₄
  obtain ⟨h₅, happ₅, hip₅⟩ :=
    h₄.word5 happ₄ (hword 3 v₄ rfl) hm₄ (hlisten i₅ (by simp)) (v := v₅) hm₅
  have hR₅ : ((((s.step i₁).step i₂).step i₃).step i₄ |>.step i₅).frame.macRxDataR = v₄.data := by
    show i₄.rx.mac.data = _
    rw [hm₄]
  obtain ⟨h₆, happ₆, hip₆, hport₆⟩ :=
    h₅.word6 happ₅ ha (hword 3 v₄ rfl) (hword 4 v₅ rfl) hR₅ hm₅ (hlisten i₆ (by simp))
      (by rw [hm₆]) (by rw [hm₆])
  obtain ⟨h₇, hfirst, hip₇, hport₇⟩ :=
    h₆.word7 happ₆ (hlisten i₇ (by simp)) (by rw [hm₇]; exact hbad)
  have hR₇ : ((((((s.step i₁).step i₂).step i₃).step i₄).step i₅).step i₆ |>.step
      i₇).frame.macRxDataR = TxRegs.dataWord 0 d := by
    show i₆.rx.mac.data = _
    rw [hm₆]
  obtain ⟨hpackets, hsources⟩ := Receiving.data ws d 0 _ is w' rest tail h₇ hR₇ hw' hm₇ his htail
    hquiet (fun i hi => hlisten i (by simp [hi]))
  constructor
  · rw [(h₀.pushes (by simp) i₁ _).1, (h₁.pushes (by simp) i₂ _).1, (h₂.pushes (by simp) i₃ _).1,
      (h₃.pushes (by simp) i₄ _).1, (h₄.pushes (by simp) i₅ _).1, (h₅.pushes (by simp) i₆ _).1,
      (h₆.pushes (by simp) i₇ _).1]
    exact hpackets
  · rw [(h₀.pushes (by simp) i₁ _).2, (h₁.pushes (by simp) i₂ _).2, (h₂.pushes (by simp) i₃ _).2,
      (h₃.pushes (by simp) i₄ _).2, (h₄.pushes (by simp) i₅ _).2, (h₅.pushes (by simp) i₆ _).2,
      (h₆.pushes (by simp) i₇ _).2, hsources, hfirst, hport₇, hport₆, hip₇, hip₆, hip₅]
    rfl

/-! ## A whole frame -/

/-- The cycles in which an application hands over a frame, with gaps, and the one after them. -/
structure AppFrame where
  init : List AppTxIn
  last : AppTxIn
  next : AppTxIn
  inner : ∀ i ∈ init, (i.valid && i.endOfFrame) = false
  valid : last.valid = true
  marked : last.endOfFrame = true

/-- All these cycles. -/
def AppFrame.cycles (f : AppFrame) : List AppTxIn := f.init ++ [f.last, f.next]

/-- The words of the frame. -/
def AppFrame.words (f : AppFrame) : List (BitVec 64) :=
  (f.init.filter AppTxIn.valid).map AppTxIn.data ++ [f.last.data]

/-- The entry of the control FIFO for it. -/
def AppFrame.ctrl (f : AppFrame) : Ctrl :=
  ⟨BitVec.ofNat 16 f.words.length, f.last.destPort, f.last.destIp⟩

/-- Between two frames of the application. -/
structure AppTx.Ready (s : AppTx) : Prop where
  valid : s.validR = false
  ctrl : s.ctrlFifoEn = false
  count : s.dataCount = 1

/-- The FIFOs after a frame of the application. -/
theorem AppTx.Ready.writes {s : AppTx} (h : s.Ready) (f : AppFrame) :
    s.packetWrites f.cycles = f.words ∧ s.ctrlWrites f.cycles = [f.ctrl] := by
  obtain ⟨hp, hc⟩ := AppTx.writes f.init s f.last f.next h.ctrl f.inner f.valid f.marked
  constructor
  · unfold AppFrame.cycles AppFrame.words
    rw [hp]
    unfold AppTx.packetWr
    rw [h.valid]
    rfl
  · have hsize : s.counted + BitVec.ofNat 16 (f.init.filter AppTxIn.valid).length
        = BitVec.ofNat 16 f.words.length := by
      unfold AppTx.counted AppFrame.words
      rw [h.valid, h.count, List.length_append, List.length_map, BitVec.ofNat_add, BitVec.add_comm]
      rfl
    unfold AppFrame.cycles AppFrame.ctrl
    rw [hc, hsize]

/-- The cycles of the MAC side in which a frame of `n` words is sent, with the time the MAC
takes. -/
structure MacCycles (n : Nat) where
  first : TxIn
  waits : List TxIn
  acked : TxIn
  others : List TxIn
  enable : first.localEnableRetimed = true
  noOverflow : first.appOverflowRetimed = false
  noCpu : first.macCpuPending = false
  noAck : ∀ i ∈ waits, i.macTxAck = false
  ack : acked.macTxAck = true
  length : others.length = n + 5

/-- All these cycles. -/
def MacCycles.cycles {n : Nat} (m : MacCycles n) : List TxIn :=
  m.first :: (m.waits ++ m.acked :: m.others)

/-- The frame sent in these cycles. -/
theorem TxSys.Idle.sent_cycles {p : TxParams} {s : TxSys} {c : Ctrl} {ws : List (BitVec 64)}
    (h : Idle s) (hctrl : s.ctrlFifo.head? = some c) (hpacket : ws <+: s.packetFifo)
    (hsize : (c.size - 1).toNat + 1 = ws.length) (m : MacCycles ws.length) :
    ∃ ipLength ipChecksum udpLength,
      s.sent p m.cycles = header p c ipLength ipChecksum udpLength ++ payload 0 ws ∧
      Idle (s.after p m.cycles) ∧
      (s.after p m.cycles).ctrlFifo = s.ctrlFifo.tail ++ m.cycles.flatMap TxIn.ctrlWr :=
  h.sent_frame hctrl hpacket hsize ⟨m.enable, m.noOverflow⟩
    (by rw [m.noCpu, Bool.and_false]) m.noAck
    m.ack m.length

/--
**What one application sends, the other gets.**

For every frame that the FIFOs hold, with any gaps between its words, and all that the MAC, the CPUs
and later frames do meanwhile: if the words sent arrive one after the other, the last of them with
`good_frame`, at a receiver that is on and configured for the destination, it pushes just the words
of the frame, the last one marked, and one source, the sender's port and IP address.
-/
theorem packets_sent (f : AppFrame) (hdepth : f.words.length ≤ packetFifoDepth) (app : AppTx)
    (happ : app.Ready) (p : TxParams) (q : LocalParams) (haddr : Addressed p f.ctrl q)
    (regs : TxRegs) (m : MacCycles f.words.length) (rx : RxSys) (hrx : rx.Ready)
    (is : List RxAppIn) (tail : List MacRx)
    (hregs : TxSys.Idle ⟨regs, app.packetWrites f.cycles, app.ctrlWrites f.cycles⟩)
    (his : is.map (fun i => i.rx.mac) = deliver
      (TxSys.sent p ⟨regs, app.packetWrites f.cycles, app.ctrlWrites f.cycles⟩ m.cycles) ++ tail)
    (htail : tail ≠ []) (hquiet : ∀ t ∈ tail, t.Quiet) (hlisten : ∀ i ∈ is, Listening q i) :
    rx.packets is = tagged f.words ∧ rx.sources is = [⟨p.localPort, p.localIp⟩] := by
  obtain ⟨hp, hc⟩ := happ.writes f
  rw [hp, hc] at hregs his
  obtain ⟨d, ws, hwords⟩ := List.exists_cons_of_ne_nil (l := f.words) (by simp [AppFrame.words])
  have hpos : 1 ≤ f.words.length := by
    rw [hwords]
    simp
  have hsize : (f.ctrl.size - 1).toNat + 1 = f.words.length := by
    have hone : (1 : BitVec 16).toNat = 1 := rfl
    unfold AppFrame.ctrl
    unfold packetFifoDepth at hdepth
    rw [BitVec.toNat_sub, hone, BitVec.toNat_ofNat]
    omega
  obtain ⟨ipLength, ipChecksum, udpLength, hsent, -, -⟩ := hregs.sent_cycles (p := p) rfl
    (List.prefix_refl f.words) hsize m
  rw [hsent, hwords] at his
  rw [hwords]
  exact hrx.frame haddr ipLength ipChecksum udpLength d ws his htail hquiet hlisten

/-! ## Two nodes -/

namespace TwoNodes

/-- The sender, 10.0.0.1. -/
def sender : TxParams where
  localMac := 0x020000000001
  localIp := 0x0a000001
  localPort := 5000
  localGateway := 254
  arpCache := fun _ => 0x020000000002
  ttl := 1

/-- The receiver, 10.0.0.2. -/
def receiver : LocalParams where
  mac := 0x020000000002
  ip := 0x0a000002
  port := 6000
  mcRecvIp := 0
  mcRecvIpMask := 0xffffffff

/-- A frame of `n + 1` zero words to the receiver. -/
def zeros (n : Nat) : AppFrame where
  init := List.replicate n ⟨true, false, 0, receiver.ip, receiver.port⟩
  last := ⟨true, true, 0, receiver.ip, receiver.port⟩
  next := ⟨false, false, 0, 0, 0⟩
  inner := by
    intro i hi
    rw [List.eq_of_mem_replicate hi]
    rfl
  valid := rfl
  marked := rfl

/-- A cycle in which the MAC is ready. -/
def macReady : TxIn := ⟨true, false, false, 0, 0, true, [], []⟩

/-- The MAC starts at once. -/
def atOnce (n : Nat) : MacCycles n where
  first := macReady
  waits := []
  acked := macReady
  others := List.replicate (n + 5) macReady
  enable := rfl
  noOverflow := rfl
  noCpu := rfl
  noAck := by
    intro i hi
    cases hi
  ack := rfl
  length := List.length_replicate

/-- The sender at rest, with the FIFOs filled by a frame. -/
def loaded (f : AppFrame) : TxSys where
  regs := ⟨.idle, false, 0, 0, 0, 0, 0, 0, 0, 0, 0, false, 0, 0⟩
  packetFifo := AppTx.packetWrites ⟨false, 0, 0, 0, false, 1⟩ f.cycles
  ctrlFifo := AppTx.ctrlWrites ⟨false, 0, 0, 0, false, 1⟩ f.cycles

/-- The receiver at rest. -/
def listener : RxSys where
  frame := ⟨⟨0, 0, false, false⟩, 0, false, false, 0, .idle, false, false⟩
  app := ⟨.run, true, false, false⟩

/-- The cycles of the receiver in which a frame arrives. -/
def arrival (f : AppFrame) : List RxAppIn :=
  (deliver ((loaded f).sent sender (atOnce f.words.length).cycles)
    ++ [(⟨0, 0, false, false⟩ : MacRx)]).map
    fun w => (⟨⟨receiver, true, true, w⟩, false, false, false⟩ : RxAppIn)

theorem addressed (n : Nat) : Addressed sender (zeros n).ctrl receiver where
  mac := by
    refine Or.inr ?_
    unfold TxParams.destMac
    rw [if_neg (by simp [zeros, AppFrame.ctrl, receiver, isMulticast])]
    rfl
  ip := rfl
  port := rfl

theorem listening (f : AppFrame) : ∀ i ∈ arrival f, Listening receiver i := by
  intro i hi
  obtain ⟨w, -, rfl⟩ := List.mem_map.mp hi
  exact ⟨rfl, rfl, rfl, rfl, rfl⟩

theorem arrival_mac (f : AppFrame) :
    (arrival f).map (fun i => i.rx.mac)
      = deliver ((loaded f).sent sender (atOnce f.words.length).cycles)
        ++ [⟨0, 0, false, false⟩] := by
  unfold arrival
  rw [List.map_map]
  exact List.map_id _

theorem listener_ready : listener.Ready := ⟨⟨rfl, rfl, rfl, rfl⟩, rfl, rfl⟩

theorem tail_quiet : ∀ t ∈ [(⟨0, 0, false, false⟩ : MacRx)], t.Quiet := by
  intro t ht
  rw [List.mem_singleton.mp ht]
  exact ⟨rfl, rfl, rfl⟩

/-- Three words arrive. -/
theorem packets_sent_threeWords :
    listener.packets (arrival (zeros 2)) = tagged (zeros 2).words ∧
      listener.sources (arrival (zeros 2)) = [⟨5000, 0x0a000001⟩] :=
  packets_sent (zeros 2) (by decide) ⟨false, 0, 0, 0, false, 1⟩ ⟨rfl, rfl, rfl⟩ sender receiver
    (addressed 2) _ (atOnce (zeros 2).words.length) listener listener_ready (arrival (zeros 2))
    [⟨0, 0, false, false⟩] ⟨rfl, rfl, rfl⟩ (arrival_mac _) (by simp) tail_quiet (listening _)

end TwoNodes

end MlibDevel.TenGbe
