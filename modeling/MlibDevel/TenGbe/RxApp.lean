import MlibDevel.TenGbe.RxFrame
import MlibDevel.TenGbe.TxFrame

/-!
# Frames for the application (`tge_rx.v`): the receive FIFOs

The words of a frame for the application are pushed into a FIFO, its source into another.  A word is
put together from six bytes of one word of the MAC and two of the next.
-/

namespace MlibDevel.TenGbe

open Lib

/-- `APP_RUN`, `APP_OVER` and `APP_WAIT` -/
inductive AppState
  | run
  | overrun
  | wait
  deriving DecidableEq, Repr

/-- The registers of the application side on the clock of the MAC. -/
structure RxApp where
  appState : AppState
  firstWord : Bool
  overrunAckR : Bool
  overrunAckRR : Bool
  deriving DecidableEq, Repr

/-- The inputs of the receiver in a cycle. -/
structure RxAppIn where
  rx : RxIn
  packetFifoAlmostFull : Bool
  ctrlFifoAlmostFull : Bool
  overrunAck : Bool
  deriving DecidableEq, Repr

/-- An entry of the packet FIFO: `rx_over`, `rx_bad`, `rx_eof`, `app_data` -/
structure Packet where
  overrun : Bool
  bad : Bool
  eof : Bool
  data : BitVec 64
  deriving DecidableEq, Repr

/-- An entry of the control FIFO: `app_source_port`, `app_source_ip` -/
structure Source where
  port : BitVec 16
  ip : BitVec 32
  deriving DecidableEq, Repr

/-- The receiver. -/
structure RxSys where
  frame : RxFrame
  app : RxApp
  deriving DecidableEq, Repr

namespace RxSys

/-- `rx_over` -/
def rxOver (i : RxAppIn) : Bool := i.packetFifoAlmostFull || i.ctrlFifoAlmostFull

/-- `rx_eof` -/
def rxEof (s : RxSys) (i : RxAppIn) : Bool :=
  s.frame.appGoodframe || s.frame.appBadframe || s.frame.appDvld && rxOver i

/-- What is pushed into the packet FIFO. -/
def packetWr (s : RxSys) (i : RxAppIn) : List Packet :=
  if s.frame.appDvld && s.app.appState == .run then
    [⟨rxOver i, s.frame.appBadframe, s.rxEof i, s.frame.appData⟩]
  else []

/-- What is pushed into the control FIFO. -/
def ctrlWr (s : RxSys) : List Source :=
  if s.frame.appDvld && s.app.firstWord && s.app.appState == .run then
    [⟨s.frame.appSourcePort, s.frame.appSourceIp⟩]
  else []

/-- `always @(posedge mac_clk)` -/
def step (s : RxSys) (i : RxAppIn) : RxSys where
  frame := s.frame.edge i.rx
  app :=
    { appState :=
        match s.app.appState with
        | .run => if s.frame.appDvld && rxOver i then .overrun else .run
        | .overrun => if s.app.overrunAckRR then .wait else .overrun
        | .wait => if !s.app.overrunAckRR then .run else .wait
      firstWord :=
        match s.app.appState with
        | .run => if s.rxEof i then true else if s.frame.appDvld then false else s.app.firstWord
        | _ => s.app.firstWord
      overrunAckR := i.overrunAck
      overrunAckRR := s.app.overrunAckR }

/-- The words pushed in a run. -/
def packets : RxSys → List RxAppIn → List Packet
  | _, [] => []
  | s, i :: is => s.packetWr i ++ packets (s.step i) is

/-- The sources pushed in a run. -/
def sources : RxSys → List RxAppIn → List Source
  | _, [] => []
  | s, i :: is => s.ctrlWr ++ sources (s.step i) is

end RxSys

/-- The words of a frame as the receiver should push them. -/
def tagged : List (BitVec 64) → List Packet
  | [] => []
  | [d] => [⟨false, false, true, d⟩]
  | d :: ws => ⟨false, false, false, d⟩ :: tagged ws

theorem length_tagged : ∀ ws : List (BitVec 64), (tagged ws).length = ws.length
  | [] => rfl
  | [_] => rfl
  | _ :: d :: ws => congrArg (· + 1) (length_tagged (d :: ws))

/-- The MAC delivers the words sent, the last one with `good_frame`. -/
def deliver : List MacTx → List MacRx
  | [] => []
  | [w] => [⟨w.data, w.dataValid, true, false⟩]
  | w :: ws => ⟨w.data, w.dataValid, false, false⟩ :: deliver ws

/-! ## The data -/

/-- The word of the data that lies in two words of the MAC. -/
theorem appData_eq {f : RxFrame} {l m : BitVec 16} {d d' : BitVec 64}
    (hR : f.macRxDataR = TxRegs.dataWord l d) (hz : f.macRxZ.data = TxRegs.dataWord m d')
    (hm : m = d.extractLsb' 0 16) : f.appData = d := by
  have hlow : ∀ k, k < 2 → byte m k = byte d k := by
    intro k hk
    unfold byte
    rw [hm, BitVec.extractLsb'_extractLsb'_of_le (by omega)]
  unfold RxFrame.appData
  rw [hR, hz]
  unfold TxRegs.dataWord
  simp only [byte_ofBytes_0, byte_ofBytes_1, byte_ofBytes_2, byte_ofBytes_3, byte_ofBytes_4,
    byte_ofBytes_5, byte_ofBytes_6, byte_ofBytes_7]
  rw [hlow 0 (by omega), hlow 1 (by omega)]
  exact bytes_64 d

/-- The receiver is on, configured by `q`, and its FIFOs are not almost full. -/
structure Listening (q : LocalParams) (i : RxAppIn) : Prop where
  params : i.rx.params = q
  enable : i.rx.localEnableRetimed = true
  up : i.rx.phyRxUp = true
  packet : i.packetFifoAlmostFull = false
  ctrl : i.ctrlFifoAlmostFull = false

theorem Listening.noOverrun {q : LocalParams} {i : RxAppIn} (h : Listening q i) :
    RxSys.rxOver i = false := by
  unfold RxSys.rxOver
  rw [h.packet, h.ctrl]
  rfl

/-- A cycle between frames: no byte valid, no flag. -/
structure MacRx.Quiet (w : MacRx) : Prop where
  valid : w.dataValid = 0
  good : w.goodFrame = false
  bad : w.badFrame = false

namespace RxSys

variable {q : LocalParams} {s : RxSys}

/-- Between frames. -/
structure Silent (s : RxSys) : Prop where
  state : s.frame.rxState = .idle
  quiet : s.frame.macRxZ.Quiet

/-- Nothing is pushed outside the data. -/
theorem no_push (i : RxAppIn) (h : s.frame.appDvld = false) :
    s.packetWr i = [] ∧ s.ctrlWr = [] := by
  unfold packetWr ctrlWr
  rw [h]
  exact ⟨rfl, rfl⟩

theorem dvld_of_ne (h : s.frame.rxState ≠ .data) : s.frame.appDvld = false := by
  unfold RxFrame.appDvld
  simp [h]

theorem Silent.step (h : Silent s) (i : RxAppIn) (hi : i.rx.mac.Quiet) : Silent (s.step i) where
  state := by
    show s.frame.nextState i.rx = .idle
    unfold RxFrame.nextState RxFrame.frameStarts
    rw [h.state, h.quiet.valid]
    rfl
  quiet := hi

/-- Between frames nothing is pushed. -/
theorem Silent.pushes : ∀ (is : List RxAppIn) (s : RxSys), Silent s →
    (∀ i ∈ is, i.rx.mac.Quiet) → s.packets is = [] ∧ s.sources is = []
  | [], _, _, _ => ⟨rfl, rfl⟩
  | i :: is, s, h, hq => by
    obtain ⟨hp, hc⟩ := no_push i (dvld_of_ne (s := s) (by rw [h.state]; simp))
    obtain ⟨ihp, ihc⟩ := pushes is (s.step i) (h.step i (hq i List.mem_cons_self))
      (fun j hj => hq j (List.mem_cons_of_mem _ hj))
    constructor
    · show s.packetWr i ++ (s.step i).packets is = []
      rw [hp, ihp]
      rfl
    · show s.ctrlWr ++ (s.step i).sources is = []
      rw [hc, ihc]
      rfl

/-- The data of a frame for the application is coming in. -/
structure Receiving (s : RxSys) : Prop where
  state : s.frame.rxState = .data
  app : s.frame.applicationFrame = true
  goodR : s.frame.macRxGoodFrameR = false
  badR : s.frame.macRxBadFrameR = false
  badZ : s.frame.macRxZ.badFrame = false
  run : s.app.appState = .run

theorem Receiving.dvld (h : Receiving s) : s.frame.appDvld = true := by
  unfold RxFrame.appDvld
  rw [h.app, h.state, h.goodR, h.badR]
  rfl

/-- The word that is pushed while data comes in. -/
theorem Receiving.push (h : Receiving s) {i : RxAppIn} (hi : Listening q i) :
    s.packetWr i = [⟨false, false, s.frame.macRxZ.goodFrame, s.frame.appData⟩] ∧
      s.ctrlWr =
        if s.app.firstWord then [⟨s.frame.appSourcePort, s.frame.appSourceIp⟩] else [] := by
  have hd := h.dvld
  constructor
  · unfold packetWr rxEof RxFrame.appBadframe RxFrame.appGoodframe
    rw [hd, h.run, hi.noOverrun, h.badZ, h.app]
    simp
  · unfold ctrlWr
    rw [hd, h.run]
    simp

/-- While data comes in, the state stays. -/
theorem Receiving.step (h : Receiving s) {i : RxAppIn} (hi : Listening q i)
    (hg : s.frame.macRxZ.goodFrame = false) (hb : i.rx.mac.badFrame = false) :
    Receiving (s.step i) ∧ (s.step i).app.firstWord = false := by
  have hd := h.dvld
  refine ⟨⟨?_, ?_, hg, h.badZ, hb, ?_⟩, ?_⟩
  · show s.frame.nextState i.rx = .data
    unfold RxFrame.nextState
    rw [h.state, h.goodR, h.badR]
    rfl
  · show s.frame.nextApplicationFrame i.rx = true
    unfold RxFrame.nextApplicationFrame
    rw [h.state, hi.enable]
    exact h.app
  · show (match s.app.appState with | .run => _ | .overrun => _ | .wait => _) = _
    rw [h.run, hi.noOverrun]
    simp
  · show (match s.app.appState with | .run => _ | _ => _) = _
    unfold rxEof RxFrame.appBadframe RxFrame.appGoodframe
    rw [h.run, hi.noOverrun, hd, hg, h.badZ]
    simp

/-- The last word is pushed, and then no more. -/
theorem Receiving.last (h : Receiving s) (hg : s.frame.macRxZ.goodFrame = true) {i : RxAppIn}
    {is : List RxAppIn} (hi : Listening q i) (hquiet : ∀ j ∈ i :: is, j.rx.mac.Quiet) :
    s.packets (i :: is) = [⟨false, false, true, s.frame.appData⟩] ∧
      s.sources (i :: is) =
        if s.app.firstWord then [⟨s.frame.appSourcePort, s.frame.appSourceIp⟩] else [] := by
  obtain ⟨hp, hc⟩ := h.push hi
  have hnone : (s.step i).packets is = [] ∧ (s.step i).sources is = [] := by
    match is with
    | [] => exact ⟨rfl, rfl⟩
    | j :: is =>
      have hdvld : (s.step i).frame.appDvld = false := by
        unfold RxFrame.appDvld
        rw [show (s.step i).frame.macRxGoodFrameR = true from hg]
        simp
      have hsilent : Silent ((s.step i).step j) := by
        refine ⟨?_, hquiet j (by simp)⟩
        show (s.step i).frame.nextState j.rx = .idle
        have hstate : (s.step i).frame.rxState = .data := by
          show s.frame.nextState i.rx = .data
          unfold RxFrame.nextState
          rw [h.state, h.goodR, h.badR]
          rfl
        unfold RxFrame.nextState
        rw [hstate, show (s.step i).frame.macRxGoodFrameR = true from hg]
        rfl
      obtain ⟨hp', hc'⟩ := no_push j hdvld
      obtain ⟨hps, hcs⟩ := hsilent.pushes is _ (fun k hk => hquiet k (by simp [hk]))
      constructor
      · show (s.step i).packetWr j ++ ((s.step i).step j).packets is = []
        rw [hp', hps]
        rfl
      · show (s.step i).ctrlWr ++ ((s.step i).step j).sources is = []
        rw [hc', hcs]
        rfl
  constructor
  · show s.packetWr i ++ (s.step i).packets is = _
    rw [hp, hnone.1, hg]
    rfl
  · show s.ctrlWr ++ (s.step i).sources is = _
    rw [hc, hnone.2, List.append_nil]

end RxSys

theorem deliver_append : ∀ (ws vs : List MacTx), vs ≠ [] →
    deliver (ws ++ vs) = ws.map (fun w => ⟨w.data, w.dataValid, false, false⟩) ++ deliver vs
  | [], _, _ => rfl
  | w :: ws, vs, h => by
    have hne : ws ++ vs ≠ [] := by simp [h]
    rw [List.cons_append, List.map_cons, List.cons_append, ← deliver_append ws vs h]
    match hl : ws ++ vs, hne with
    | v :: rest, _ => rfl

/-- The MAC delivers no bad frame. -/
theorem deliver_good : ∀ (ws : List MacTx), ∀ w ∈ deliver ws, w.badFrame = false
  | [], w, hw => by cases hw
  | [v], w, hw => by
    rw [List.mem_singleton.mp hw]
  | v :: v' :: ws, w, hw => by
    rcases List.mem_cons.mp hw with rfl | hw
    · rfl
    · exact deliver_good (v' :: ws) w hw

theorem payload_ne (l : BitVec 16) (ws : List (BitVec 64)) : payload l ws ≠ [] := by
  cases ws <;> simp [payload]

/-- The first word of what is delivered for the data. -/
theorem deliver_payload_cons (l : BitVec 16) (d : BitVec 64) (ws : List (BitVec 64)) :
    deliver (payload l (d :: ws))
      = ⟨TxRegs.dataWord l d, 0xff, false, false⟩ :: deliver (payload (d.extractLsb' 0 16) ws) := by
  have happ := deliver_append [⟨TxRegs.dataWord l d, 0xff⟩] (payload (d.extractLsb' 0 16) ws)
    (payload_ne _ _)
  exact happ

/-! ## The header -/

/-- A word of the MAC inside a frame. -/
def MacTx.inside (w : MacTx) : MacRx := ⟨w.data, w.dataValid, false, false⟩

/-- The configuration of a receiver that gets what is sent to `c`. -/
structure Addressed (p : TxParams) (c : Ctrl) (q : LocalParams) : Prop where
  mac : isMulticast c.ip = true ∨ q.mac = p.destMac c.ip
  ip : q.ip = c.ip
  port : q.port = c.port

section Header

variable {p : TxParams} {c : Ctrl} {q : LocalParams} {f : RxFrame}
  {ipLength ipChecksum udpLength : BitVec 16}

/-- The destination MAC address is for the receiver. -/
theorem Addressed.macMismatch (h : Addressed p c q) {w : MacTx}
    (hw : (header p c ipLength ipChecksum udpLength)[0]? = some w) (hz : f.macRxZ = w.inside) :
    f.macMismatch q = false := by
  have hmac : f.destinationMac = p.destMac c.ip := by
    unfold RxFrame.destinationMac
    rw [hz]
    obtain rfl := Option.some.inj hw
    simp only [MacTx.inside, byte_ofBytes_0, byte_ofBytes_1, byte_ofBytes_2, byte_ofBytes_3,
      byte_ofBytes_4, byte_ofBytes_5]
    exact bytes_48 _
  unfold RxFrame.macMismatch
  rw [hmac]
  rcases h.mac with hm | hm
  · unfold TxParams.destMac
    rw [if_pos hm, extract_ofBytes48]
    simp
  · rw [hm]
    simp

/-- IPv4 without options. -/
theorem ipv4_match {w : MacTx} (hw : (header p c ipLength ipChecksum udpLength)[1]? = some w)
    (hz : f.macRxZ = w.inside) : f.ipv4Mismatch = false := by
  unfold RxFrame.ipv4Mismatch
  rw [hz]
  obtain rfl := Option.some.inj hw
  simp only [MacTx.inside, byte_ofBytes_4, byte_ofBytes_5, byte_ofBytes_6]
  rfl

/-- UDP. -/
theorem udp_match {w : MacTx} (hw : (header p c ipLength ipChecksum udpLength)[2]? = some w)
    (hz : f.macRxZ = w.inside) : byte f.macRxZ.data 7 = 0x11#8 := by
  rw [hz]
  obtain rfl := Option.some.inj hw
  simp only [MacTx.inside, byte_ofBytes_7]

/-- The source IP address. -/
theorem sourceIp_stored {w : MacTx} (hw : (header p c ipLength ipChecksum udpLength)[3]? = some w)
    (hz : f.macRxZ = w.inside) (hs : f.rxState = .hdrWord4) :
    f.nextControlData = f.rxControlData.extractLsb' 32 16 ++ p.localIp := by
  unfold RxFrame.nextControlData
  rw [hs, hz]
  obtain rfl := Option.some.inj hw
  simp only [MacTx.inside, byte_ofBytes_2, byte_ofBytes_3, byte_ofBytes_4, byte_ofBytes_5]
  rw [bytes_32]

/-- The source port. -/
theorem sourcePort_stored {w : MacTx}
    (hw : (header p c ipLength ipChecksum udpLength)[4]? = some w) (hz : f.macRxZ = w.inside)
    (hs : f.rxState = .hdrWord5) :
    f.nextControlData = p.localPort ++ f.rxControlData.extractLsb' 0 32 := by
  unfold RxFrame.nextControlData
  rw [hs, hz]
  obtain rfl := Option.some.inj hw
  simp only [MacTx.inside, byte_ofBytes_2, byte_ofBytes_3]
  rw [bytes_16]

/-- The destination port and IP address are those of the receiver. -/
theorem Addressed.destination (h : Addressed p c q) {v w : MacTx}
    (hv : (header p c ipLength ipChecksum udpLength)[3]? = some v)
    (hw : (header p c ipLength ipChecksum udpLength)[4]? = some w) (hR : f.macRxDataR = v.data)
    (hz : f.macRxZ = w.inside) : (f.destinationPort != q.port || f.ipMismatch q) = false := by
  have hport : f.destinationPort = c.port := by
    unfold RxFrame.destinationPort
    rw [hz]
    obtain rfl := Option.some.inj hw
    simp only [MacTx.inside, byte_ofBytes_4, byte_ofBytes_5]
    exact bytes_16 _
  have hip : f.destinationIp = c.ip := by
    unfold RxFrame.destinationIp
    rw [hz, hR]
    obtain rfl := Option.some.inj hw
    obtain rfl := Option.some.inj hv
    simp only [MacTx.inside, byte_ofBytes_0, byte_ofBytes_1, byte_ofBytes_6, byte_ofBytes_7]
    exact bytes_32 _
  unfold RxFrame.ipMismatch
  rw [hport, hip, h.port, h.ip]
  simp

end Header

namespace RxSys

variable {q : LocalParams}

/-- All the data of a frame: a word is in `R`, those behind it come in. -/
theorem Receiving.data : ∀ (ws : List (BitVec 64)) (d : BitVec 64) (l : BitVec 16) (s : RxSys)
    (is : List RxAppIn) (w : MacRx) (rest tail : List MacRx), Receiving s →
    s.frame.macRxDataR = TxRegs.dataWord l d →
    deliver (payload (d.extractLsb' 0 16) ws) = w :: rest → s.frame.macRxZ = w →
    is.map (fun i => i.rx.mac) = rest ++ tail → tail ≠ [] → (∀ t ∈ tail, t.Quiet) →
    (∀ i ∈ is, Listening q i) →
    s.packets is = tagged (d :: ws) ∧
      s.sources is =
        if s.app.firstWord then [⟨s.frame.appSourcePort, s.frame.appSourceIp⟩] else []
  | [], d, l, s, is, w, rest, tail, h, hR, hw, hz, his, htail, hquiet, hlisten => by
    obtain ⟨rfl, rfl⟩ := List.cons.inj hw
    have hdata : s.frame.appData = d := appData_eq hR (by rw [hz]) rfl
    match is, his with
    | [], his =>
      exact absurd (by simpa using his) htail
    | i :: is, his =>
      have hquiet' : ∀ j ∈ i :: is, j.rx.mac.Quiet := by
        intro j hj
        refine hquiet _ ?_
        rw [show tail = (i :: is).map fun i => i.rx.mac from his.symm]
        exact List.mem_map_of_mem hj
      have hlast := h.last (by rw [hz]) (hlisten i List.mem_cons_self) hquiet'
      rw [hdata] at hlast
      exact hlast
  | d' :: ws, d, l, s, is, w, rest, tail, h, hR, hw, hz, his, htail, hquiet, hlisten => by
    rw [deliver_payload_cons] at hw
    obtain ⟨rfl, rfl⟩ := List.cons.inj hw
    have hdata : s.frame.appData = d := appData_eq hR (by rw [hz]) rfl
    obtain ⟨w', rest', hw'⟩ := List.exists_cons_of_ne_nil
      (l := deliver (payload (d'.extractLsb' 0 16) ws)) (by
        cases ws with
        | nil => simp [payload, deliver]
        | cons _ _ => rw [deliver_payload_cons]; simp)
    rw [hw'] at his
    match is, his with
    | i :: is, his =>
      obtain ⟨hmac, his'⟩ := List.cons.inj his
      have hi := hlisten i List.mem_cons_self
      obtain ⟨hp, hc⟩ := h.push hi
      have hbad : i.rx.mac.badFrame = false := by
        rw [show i.rx.mac = w' from hmac]
        refine deliver_good (payload (d'.extractLsb' 0 16) ws) w' ?_
        rw [hw']
        exact List.mem_cons_self
      obtain ⟨h', hfirst⟩ := h.step hi (by rw [hz]) hbad
      have hR' : (s.step i).frame.macRxDataR = TxRegs.dataWord (d.extractLsb' 0 16) d' := by
        show s.frame.macRxZ.data = _
        rw [hz]
      obtain ⟨ihp, ihc⟩ :=
        data ws d' _ (s.step i) is w' rest' tail h' hR' hw' hmac his' htail hquiet
        (fun j hj => hlisten j (List.mem_cons_of_mem _ hj))
      constructor
      · show s.packetWr i ++ (s.step i).packets is = _
        rw [hp, ihp, hz, hdata]
        rfl
      · show s.ctrlWr ++ (s.step i).sources is = _
        rw [hc, ihc, hfirst]
        simp

/-- A state in which no data comes in; the next word of data will be the first of a frame. -/
structure Before (s : RxSys) (st : RxState) : Prop where
  state : s.frame.rxState = st
  good : s.frame.macRxZ.goodFrame = false
  bad : s.frame.macRxZ.badFrame = false
  run : s.app.appState = .run
  first : s.app.firstWord = true

/-- Nothing is pushed before the data. -/
theorem Before.pushes {s : RxSys} {st : RxState} (h : Before s st) (hst : st ≠ .data) (i : RxAppIn)
    (is : List RxAppIn) :
    s.packets (i :: is) = (s.step i).packets is ∧ s.sources (i :: is) = (s.step i).sources is := by
  obtain ⟨hp, hc⟩ := no_push i (dvld_of_ne (s := s) (by rw [h.state]; exact hst))
  constructor
  · show s.packetWr i ++ (s.step i).packets is = _
    rw [hp]
    rfl
  · show s.ctrlWr ++ (s.step i).sources is = _
    rw [hc]
    rfl

theorem Before.step {s : RxSys} {st st' : RxState} (h : Before s st) (hst : st ≠ .data)
    {i : RxAppIn} (hnext : s.frame.nextState i.rx = st') (hg : i.rx.mac.goodFrame = false)
    (hb : i.rx.mac.badFrame = false) : Before (s.step i) st' := by
  have hdvld := dvld_of_ne (s := s) (by rw [h.state]; exact hst)
  refine ⟨hnext, hg, hb, ?_, ?_⟩
  · show (match s.app.appState with | .run => _ | .overrun => _ | .wait => _) = _
    rw [h.run, hdvld]
    rfl
  · show (match s.app.appState with | .run => _ | _ => _) = _
    unfold rxEof RxFrame.appBadframe RxFrame.appGoodframe
    rw [h.run, hdvld, h.good, h.bad, h.first]
    simp

/-- Between frames, ready for the next one. -/
structure Ready (s : RxSys) : Prop where
  silent : Silent s
  run : s.app.appState = .run
  first : s.app.firstWord = true

theorem Ready.before {s : RxSys} (h : Ready s) : Before s .idle :=
  ⟨h.silent.state, h.silent.quiet.good, h.silent.quiet.bad, h.run, h.first⟩

section Header

variable {p : TxParams} {c : Ctrl} {s : RxSys} {i : RxAppIn}
  {ipLength ipChecksum udpLength : BitVec 16} {w : MacTx}

/-- A word of the header that leaves the frame to the application. -/
theorem Before.headerWord {st st' : RxState} (h : Before s st) (hst : st ≠ .data)
    (hmac : i.rx.mac = w.inside) (hnext : s.frame.nextState i.rx = st')
    (happ : s.frame.nextApplicationFrame i.rx = true) :
    Before (s.step i) st' ∧ (s.step i).frame.applicationFrame = true :=
  ⟨h.step hst hnext (by rw [hmac]; rfl) (by rw [hmac]; rfl), happ⟩

/-- The first word of a frame comes. -/
theorem Ready.word1 (h : Ready s) (hmac : i.rx.mac = w.inside) : Before (s.step i) .idle := by
  refine h.before.step (by simp) ?_ (by rw [hmac]; rfl) (by rw [hmac]; rfl)
  unfold RxFrame.nextState RxFrame.frameStarts
  rw [h.silent.state, h.silent.quiet.valid]
  rfl

/-- The destination MAC address is looked at. -/
theorem Before.word2 (h : Before s .idle) (ha : Addressed p c q)
    (hw : (header p c ipLength ipChecksum udpLength)[0]? = some w)
    (hz : s.frame.macRxZ = w.inside) (hi : Listening q i) {v : MacTx}
    (hmac : i.rx.mac = v.inside) :
    Before (s.step i) .hdrWord2 ∧ (s.step i).frame.applicationFrame = true := by
  have hmis : s.frame.macMismatch i.rx.params = false := by
    rw [hi.params]
    exact ha.macMismatch hw hz
  have hvalid : s.frame.macRxZ.dataValid = 0xff := by
    rw [hz]
    obtain rfl := Option.some.inj hw
    rfl
  have hstarts : s.frame.frameStarts i.rx = true := by
    unfold RxFrame.frameStarts
    rw [hvalid, hi.up]
    rfl
  refine h.headerWord (by simp) hmac ?_ ?_
  · unfold RxFrame.nextState
    rw [h.state, hstarts, hmis]
    rfl
  · unfold RxFrame.nextApplicationFrame
    rw [h.state, hi.enable, hmis]
    simp

/-- The type of the frame is looked at. -/
theorem Before.word3 (h : Before s .hdrWord2) (happ : s.frame.applicationFrame = true)
    (hw : (header p c ipLength ipChecksum udpLength)[1]? = some w)
    (hz : s.frame.macRxZ = w.inside) (hi : Listening q i) {v : MacTx}
    (hmac : i.rx.mac = v.inside) :
    Before (s.step i) .hdrWord3 ∧ (s.step i).frame.applicationFrame = true := by
  have hmis := ipv4_match hw hz
  refine h.headerWord (by simp) hmac ?_ ?_
  · unfold RxFrame.nextState
    rw [h.state, hmis]
    rfl
  · unfold RxFrame.nextApplicationFrame
    rw [h.state, hi.enable, hmis, happ]
    rfl

/-- The protocol is looked at. -/
theorem Before.word4 (h : Before s .hdrWord3) (happ : s.frame.applicationFrame = true)
    (hw : (header p c ipLength ipChecksum udpLength)[2]? = some w)
    (hz : s.frame.macRxZ = w.inside) (hi : Listening q i) {v : MacTx}
    (hmac : i.rx.mac = v.inside) :
    Before (s.step i) .hdrWord4 ∧ (s.step i).frame.applicationFrame = true := by
  have hudp := udp_match hw hz
  refine h.headerWord (by simp) hmac ?_ ?_
  · unfold RxFrame.nextState
    rw [h.state, hudp]
    rfl
  · unfold RxFrame.nextApplicationFrame
    rw [h.state, hi.enable, hudp, happ]
    rfl

/-- The source IP address is stored. -/
theorem Before.word5 (h : Before s .hdrWord4) (happ : s.frame.applicationFrame = true)
    (hw : (header p c ipLength ipChecksum udpLength)[3]? = some w)
    (hz : s.frame.macRxZ = w.inside) (hi : Listening q i) {v : MacTx}
    (hmac : i.rx.mac = v.inside) :
    Before (s.step i) .hdrWord5 ∧ (s.step i).frame.applicationFrame = true ∧
      (s.step i).frame.appSourceIp = p.localIp := by
  rw [← and_assoc]
  constructor
  · refine h.headerWord (by simp) hmac ?_ ?_
    · unfold RxFrame.nextState
      rw [h.state]
    · unfold RxFrame.nextApplicationFrame
      rw [h.state, hi.enable, happ]
      rfl
  · show s.frame.nextControlData.extractLsb' 0 32 = _
    rw [sourceIp_stored hw hz h.state]
    exact BitVec.extractLsb'_append_eq_right

/-- The source port is stored, the destination is looked at. -/
theorem Before.word6 (h : Before s .hdrWord5) (happ : s.frame.applicationFrame = true)
    (ha : Addressed p c q) {w' : MacTx}
    (hw' : (header p c ipLength ipChecksum udpLength)[3]? = some w')
    (hw : (header p c ipLength ipChecksum udpLength)[4]? = some w)
    (hR : s.frame.macRxDataR = w'.data) (hz : s.frame.macRxZ = w.inside) (hi : Listening q i)
    (hg : i.rx.mac.goodFrame = false) (hb : i.rx.mac.badFrame = false) :
    Before (s.step i) .hdrWord6 ∧ (s.step i).frame.applicationFrame = true ∧
      (s.step i).frame.appSourceIp = s.frame.appSourceIp ∧
      (s.step i).frame.appSourcePort = p.localPort := by
  have hdest : (s.frame.destinationPort != i.rx.params.port || s.frame.ipMismatch i.rx.params)
      = false := by
    rw [hi.params]
    exact ha.destination hw' hw hR hz
  refine ⟨?_, ?_, ?_, ?_⟩
  · refine h.step (by simp) ?_ hg hb
    unfold RxFrame.nextState
    rw [h.state, hdest]
    rfl
  · show s.frame.nextApplicationFrame i.rx = true
    unfold RxFrame.nextApplicationFrame
    rw [h.state, hi.enable, hdest, happ]
    rfl
  · show s.frame.nextControlData.extractLsb' 0 32 = _
    rw [sourcePort_stored hw hz h.state]
    exact BitVec.extractLsb'_append_eq_right
  · show s.frame.nextControlData.extractLsb' 32 16 = _
    rw [sourcePort_stored hw hz h.state]
    exact BitVec.extractLsb'_append_eq_left

/-- The data comes in. -/
theorem Before.word7 (h : Before s .hdrWord6) (happ : s.frame.applicationFrame = true)
    (hi : Listening q i) (hb : i.rx.mac.badFrame = false) :
    Receiving (s.step i) ∧ (s.step i).app.firstWord = true ∧
      (s.step i).frame.appSourceIp = s.frame.appSourceIp ∧
      (s.step i).frame.appSourcePort = s.frame.appSourcePort := by
  have hcontrol : (s.step i).frame.rxControlData = s.frame.rxControlData := by
    show s.frame.nextControlData = _
    unfold RxFrame.nextControlData
    rw [h.state]
  have hdvld := dvld_of_ne (s := s) (by rw [h.state]; simp)
  refine ⟨⟨?_, ?_, h.good, h.bad, hb, ?_⟩, ?_, ?_, ?_⟩
  · show s.frame.nextState i.rx = .data
    unfold RxFrame.nextState
    rw [h.state]
  · show s.frame.nextApplicationFrame i.rx = true
    unfold RxFrame.nextApplicationFrame
    rw [h.state, hi.enable, happ]
    rfl
  · show (match s.app.appState with | .run => _ | .overrun => _ | .wait => _) = _
    rw [h.run, hdvld]
    rfl
  · show (match s.app.appState with | .run => _ | _ => _) = _
    unfold rxEof RxFrame.appBadframe RxFrame.appGoodframe
    rw [h.run, hdvld, h.good, h.bad, h.first]
    simp
  · unfold RxFrame.appSourceIp
    rw [hcontrol]
  · unfold RxFrame.appSourcePort
    rw [hcontrol]

end Header

end RxSys

end MlibDevel.TenGbe
