import MlibDevel.Lib.Cycles
import MlibDevel.Onegbe.TxRun

/-!
# The frames that are sent (`gbe_tx.v`)

Whatever is sent meanwhile, what the MAC has got when the core is idle are whole frames, one for
each entry of the control FIFO and each offer of the CPU that are gone, and when no more come all of
them leave (`Resting.run_sends`).
-/

namespace MlibDevel.Onegbe

open Lib

namespace TxWatch

variable {p : GbeTxParams} {w : TxWatch} {i : GbeTxIn} {served : List Request} {r : Request}

/-- The core after its reset, with empty FIFOs. -/
structure Resting (w : TxWatch) : Prop where
  state : w.sys.regs.txState = .idle
  ready : w.sys.regs.cpuTxReadyR = false ∧ w.sys.regs.cpuTxReadyRR = false
  cpuAck : w.sys.regs.cpuAck = false
  fifos : w.sys.packetFifo = [] ∧ w.sys.ctrlFifo = []
  taking : w.taking = false
  waited : w.waited = 0
  frames : w.frames = []
  written : w.packetWritten = [] ∧ w.ctrlWritten = [] ∧ w.offered = []

theorem Resting.idle (h : Resting w) : Idle p w [] := by
  have hwaiting : w.waiting = [] := by rw [waiting, h.ready.1]; rfl
  refine ⟨⟨?_, ?_, ?_, ?_, ?_, ?_⟩, ⟨?_, ?_, ?_⟩, ?_, h.state, h.waited⟩
  · rw [h.written.2.1, h.fifos.2]
    rfl
  · rw [h.written.1, h.fifos.1]
    rfl
  · rw [h.written.2.2, hwaiting]
    rfl
  · exact fun c data hmem => absurd hmem List.not_mem_nil
  · rw [h.written.2.1]
    exact Nat.zero_le _
  · rw [h.written.2.1]
    exact fun c hmem => absurd hmem List.not_mem_nil
  · exact fun _ hpending => absurd (h.ready.2.symm.trans hpending) Bool.false_ne_true
  · exact fun hack => absurd (h.cpuAck.symm.trans hack) Bool.false_ne_true
  · rw [hwaiting]
    exact fun o hmem => absurd hmem List.not_mem_nil
  · rw [got, h.taking]
    exact h.frames

/-- What the MAC has got are the frames `served`, and they are what has left the queues. -/
structure Exact (p : GbeTxParams) (w : TxWatch) (served : List Request) : Prop where
  got : w.got = served.map (Request.bytes p)
  ctrl : w.ctrlWritten = served.flatMap Request.ctrl ++ w.sys.ctrlFifo
  packet : w.packetWritten = served.flatMap Request.data ++ w.sys.packetFifo
  offered : w.offered = served.flatMap Request.offer ++ w.waiting
  size : ∀ c data, .app c data ∈ served → data.length = c.size.toNat
  lengths : ∀ c data, .app c data ∈ served →
    c.ipLength.toNat = 20 + 8 + data.length ∧ c.udpLength.toNat = 8 + data.length

theorem Idle.exact (h : Idle p w served) : Exact p w served where
  got := h.got
  ctrl := h.books.ctrl
  packet := h.books.packet
  offered := h.books.offered
  size c data hmem := (h.books.whole c data hmem).1
  lengths c data hmem := by
    obtain ⟨hlen, hfit⟩ := h.books.whole c data hmem
    unfold packetFifoDepth at hfit
    rw [TxCtrl.ipLength, TxCtrl.udpLength, BitVec.toNat_add, BitVec.toNat_add, BitVec.toNat_ofNat,
      BitVec.toNat_ofNat]
    omega

theorem macTxDvld_eq_false : w.sys.regs.macTxDvld = false ↔ w.sys.regs.txState = .idle := by
  rw [GbeTx.macTxDvld, bne_eq_false_iff_eq]

/-! ## The queues run empty -/

/-- The observer in cycle `t`, when the environment does `env` from now on. -/
def follow (p : GbeTxParams) (w : TxWatch) (env : Nat → GbeTxIn) : Nat → TxWatch :=
  atCycle (step p) w env

/-- Nothing is sent, and nothing waits any more. -/
structure AllGone (w : TxWatch) : Prop where
  macTxDvld : w.sys.regs.macTxDvld = false
  ctrlFifo : w.sys.ctrlFifo = []
  waiting : w.waiting = []

/--
From now on there are no more frames, the application is enabled and has not overflowed, and the MAC
acknowledges the first byte of a frame at some time.
-/
structure Draining (p : GbeTxParams) (w : TxWatch) (env : Nat → GbeTxIn) : Prop where
  fed : ∀ t, Fed (w.follow p env t) (env t)
  quiet : ∀ t, (env t).ctrlWr = [] ∧ (w.follow p env t).offers (env t) = false
  enabled : ∀ t, (env t).localEnable = true ∧ (env t).appOverflow = false
  acks : ∀ t, (w.follow p env t).sys.regs.macTxDvld = true → (w.follow p env t).taking = false →
    ∃ t', t ≤ t' ∧ (env t').macTxAck = true

/-- An offer that waits has come through the first register. -/
theorem offer_of_waiting (h : w.waiting ≠ []) :
    w.sys.regs.cpuTxReadyR = true ∧ w.sys.regs.cpuAck = false := by
  rw [waiting] at h
  split at h
  · next hboth =>
    obtain ⟨hready, hack⟩ := Bool.and_eq_true_iff.mp hboth
    exact ⟨hready, by rwa [Bool.not_eq_true'] at hack⟩
  · exact absurd rfl h

/-- The MAC takes the first byte when it acknowledges it. -/
theorem Handing.acked (h : Handing p w served r 0) (hi : Fed w i) (hack : i.macTxAck = true) :
    (∃ k, 0 < k ∧ Handing p (w.step p i) served r k) ∨ Idle p (w.step p i) (served ++ [r]) := by
  rcases h.step (p := p) hi with ⟨-, hwaits⟩ | ⟨-, hnext⟩ | ⟨-, hidle⟩
  · -- the byte has been taken
    have htaking : (w.step p i).taking = true := by
      show w.takes i = true
      rw [takes_of_busy h.seen.1, hack]
      rfl
    exact absurd (hwaits.seen.2.2.1.symm.trans htaking) (by decide)
  · exact .inl ⟨1, Nat.one_pos, hnext⟩
  · exact .inr hidle

section Drains

variable {env : Nat → GbeTxIn} {t : Nat} (hd : Draining p w env)
include hd

/-- A frame of which a byte has been taken is handed over. -/
theorem Draining.finishes : ∀ (m t k : Nat), Handing p (w.follow p env t) served r k → 0 < k →
    k + m = (r.bytes p).length → ∃ t', t < t' ∧ Idle p (w.follow p env t') (served ++ [r])
  | 0, _, _, h, _, hlen => absurd h.seen.2.1 (by omega)
  | m + 1, t, k, h, hpos, hlen => by
    rcases h.step (p := p) (hd.fed t) with ⟨hzero, -⟩ | ⟨-, hnext⟩ | ⟨-, hidle⟩
    · omega
    · obtain ⟨t', ht, hidle⟩ :=
        Draining.finishes m (t + 1) (k + 1) hnext (Nat.succ_pos k) (by omega)
      exact ⟨t', by omega, hidle⟩
    · exact ⟨t + 1, Nat.lt_succ_self t, hidle⟩

/-- **A frame that is started leaves.** -/
theorem Draining.leaves {k : Nat} (h : Handing p (w.follow p env t) served r k) :
    ∃ t', t < t' ∧ Idle p (w.follow p env t') (served ++ [r]) := by
  have hfinish : ∀ u, (∃ k, 0 < k ∧ Handing p (w.follow p env u) served r k) →
      ∃ t', u < t' ∧ Idle p (w.follow p env t') (served ++ [r]) := by
    rintro u ⟨k, hpos, hu⟩
    have hlt := hu.seen.2.1
    exact hd.finishes ((r.bytes p).length - k) u k hu hpos (by omega)
  rcases Nat.eq_zero_or_pos k with rfl | hpos
  · -- the core waits until the MAC has taken the first byte
    obtain ⟨-, -, htaking, -⟩ := h.seen
    have hack := hd.acks t (macTxDvld_of_busy h.seen.1) htaking
    obtain ⟨t', ht, hgo⟩ : ∃ t', t < t' ∧ ((∃ k, 0 < k ∧ Handing p (w.follow p env t') served r k) ∨
        Idle p (w.follow p env t') (served ++ [r])) := by
      have hevent : ∃ u, t ≤ u ∧ ((env u).macTxAck = true ∨
          (∃ k, 0 < k ∧ Handing p (w.follow p env (u + 1)) served r k) ∨
          Idle p (w.follow p env (u + 1)) (served ++ [r])) :=
        hack.imp fun u hu => ⟨hu.1, .inl hu.2⟩
      refine waits_until (P := fun u => Handing p (w.follow p env u) served r 0) ?_ ?_ h hevent
      · intro u hu hno
        rw [not_or] at hno
        rcases hu.step (p := p) (hd.fed u) with ⟨-, hwaits⟩ | ⟨-, hnext⟩ | ⟨-, hidle⟩
        · exact hwaits
        · exact absurd (.inl ⟨1, Nat.one_pos, hnext⟩) hno.2
        · exact absurd (.inr hidle) hno.2
      · intro u hu hyes
        rcases hyes with hack | hgo
        · exact hu.acked (hd.fed u) hack
        · exact hgo
    rcases hgo with hsends | hidle
    · obtain ⟨u, hu, hidle⟩ := hfinish t' hsends
      exact ⟨u, by omega, hidle⟩
    · exact ⟨t', ht, hidle⟩
  · exact hfinish t ⟨k, hpos, h⟩

/-- An idle core starts a frame, or stays idle and leaves the queues as they are. -/
theorem Draining.begins_or_stays (h : Idle p (w.follow p env t) served) :
    (∃ r, Handing p (w.follow p env (t + 1)) served r 0) ∨
      (Idle p (w.follow p env (t + 1)) served ∧
        (w.follow p env (t + 1)).sys.ctrlFifo = (w.follow p env t).sys.ctrlFifo ∧
        (w.follow p env (t + 1)).waiting = (w.follow p env t).waiting) := by
  by_cases hstart : (w.follow p env t).sys.regs.cpuStarts = true ∨
      (w.follow p env t).sys.regs.appStarts (w.follow p env t).sys.ctrlFifo.isEmpty = true
  · exact .inl (h.begins (hd.fed t) hstart)
  obtain ⟨hctrl, hoffers⟩ := hd.quiet t
  have hnot : (w.follow p env t).startsCpu = false := by
    rw [startsCpu, eq_false_of_ne_true fun hc => hstart (.inl hc), Bool.and_false]
  have hfifos := (fifos_step (p := p) (i := env t) (w := w.follow p env t)
    (by rw [h.state]; decide)).1
  refine .inr ⟨h.waits (hd.fed t) hstart, ?_, ?_⟩
  · rw [hctrl, List.append_nil] at hfifos
    exact hfifos
  · refine (h.shake.waiting_step (hd.fed t) hnot).trans ?_
    rw [offersNow, hoffers]
    exact List.append_nil _

/-- An entry that waits is started when the enable has come through its registers. -/
theorem Draining.starts_app (h : Idle p (w.follow p env (t + 2)) served)
    (hctrl : (w.follow p env (t + 2)).sys.ctrlFifo ≠ []) :
    ∃ r, Handing p (w.follow p env (t + 3)) served r 0 := by
  have henable : (w.follow p env (t + 2)).sys.regs.localEnableRR = true := (hd.enabled t).1
  have hoverflow : (w.follow p env (t + 2)).sys.regs.appOverflowRR = false := (hd.enabled t).2
  refine h.begins (hd.fed (t + 2)) (.inr ?_)
  rw [GbeTx.appStarts, henable, hoverflow, List.isEmpty_eq_false_iff.mpr hctrl]
  rfl

/-- An offer that waits is started when it has come through the second register. -/
theorem Draining.starts_cpu (h : Idle p (w.follow p env (t + 1)) served)
    (hwaiting : (w.follow p env t).waiting ≠ []) (hstays : (w.follow p env (t + 1)).waiting ≠ []) :
    ∃ r, Handing p (w.follow p env (t + 2)) served r 0 := by
  have hready : (w.follow p env (t + 1)).sys.regs.cpuTxReadyRR = true :=
    (offer_of_waiting hwaiting).1
  refine h.begins (hd.fed (t + 1)) (.inl ?_)
  rw [GbeTx.cpuStarts, hready, (offer_of_waiting hstays).2]
  rfl

/-- What waits is started when it has come through the registers. -/
theorem Draining.starts (h : Idle p (w.follow p env t) served)
    (hwaits : (w.follow p env t).sys.ctrlFifo ≠ [] ∨ (w.follow p env t).waiting ≠ []) :
    ∃ t' r, t < t' ∧ Handing p (w.follow p env t') served r 0 := by
  rcases hd.begins_or_stays h with ⟨r, hr⟩ | ⟨h₁, hctrl₁, hwaiting₁⟩
  · exact ⟨t + 1, r, Nat.lt_succ_self t, hr⟩
  rcases hd.begins_or_stays h₁ with ⟨r, hr⟩ | ⟨h₂, hctrl₂, hwaiting₂⟩
  · exact ⟨t + 2, r, by omega, hr⟩
  rcases hwaits with hctrl | hwaiting
  · obtain ⟨r, hr⟩ := hd.starts_app h₂ (by rw [hctrl₂, hctrl₁]; exact hctrl)
    exact ⟨t + 3, r, by omega, hr⟩
  · obtain ⟨r, hr⟩ := hd.starts_cpu h₁ hwaiting (by rw [hwaiting₁]; exact hwaiting)
    exact ⟨t + 2, r, by omega, hr⟩

/-- Nothing more is written or offered. -/
theorem Draining.same (t : Nat) : (w.follow p env t).ctrlWritten = w.ctrlWritten ∧
    (w.follow p env t).offered = w.offered := by
  induction t with
  | zero => exact ⟨rfl, rfl⟩
  | succ t ih =>
    obtain ⟨hctrl, hoffers⟩ := hd.quiet t
    constructor
    · show (w.follow p env t).ctrlWritten ++ (env t).ctrlWr = _
      rw [hctrl, List.append_nil, ih.1]
    · show (if (w.follow p env t).offers (env t) then _ else (w.follow p env t).offered) = _
      rw [hoffers]
      exact ih.2

omit hd in
/-- A frame has either an entry in the control FIFO or an offer. -/
theorem length_served_eq : ∀ served : List Request,
    served.length = (served.flatMap Request.ctrl).length + (served.flatMap Request.offer).length
  | [] => rfl
  | .app c data :: served => by
    have ih := length_served_eq served
    simp only [List.flatMap_cons, Request.ctrl, Request.offer, List.length_append,
      List.length_cons, List.length_nil]
    omega
  | .cpu o :: served => by
    have ih := length_served_eq served
    simp only [List.flatMap_cons, Request.ctrl, Request.offer, List.length_append,
      List.length_cons, List.length_nil]
    omega

/-- What was written and offered has been served or waits. -/
theorem Draining.count (h : Idle p (w.follow p env t) served) :
    w.ctrlWritten.length + w.offered.length = served.length +
      (w.follow p env t).sys.ctrlFifo.length + (w.follow p env t).waiting.length := by
  obtain ⟨hctrl, hoffered⟩ := hd.same t
  have hc := congrArg List.length h.books.ctrl
  have ho := congrArg List.length h.books.offered
  have hs := length_served_eq served
  rw [hctrl, List.length_append] at hc
  rw [hoffered, List.length_append] at ho
  omega

/-- **Frame by frame all leave.** -/
theorem Draining.all_gone : ∀ (m t : Nat) (served : List Request),
    Idle p (w.follow p env t) served →
    w.ctrlWritten.length + w.offered.length = served.length + m →
    ∃ t' served', Exact p (w.follow p env t') served' ∧ AllGone (w.follow p env t')
  | 0, t, served, h, hm => by
    have hcount := hd.count h
    exact ⟨t, served, h.exact, macTxDvld_eq_false.mpr h.state,
      List.length_eq_zero_iff.mp (by omega), List.length_eq_zero_iff.mp (by omega)⟩
  | m + 1, t, served, h, hm => by
    have hcount := hd.count h
    have hwaits : (w.follow p env t).sys.ctrlFifo ≠ [] ∨ (w.follow p env t).waiting ≠ [] := by
      by_contra hnone
      rw [not_or, not_not, not_not] at hnone
      simp only [hnone.1, hnone.2, List.length_nil] at hcount
      omega
    obtain ⟨u, r, -, hr⟩ := hd.starts h hwaits
    obtain ⟨v, -, hidle⟩ := hd.leaves hr
    exact Draining.all_gone m v (served ++ [r]) hidle
      (by rw [List.length_append, List.length_singleton]; omega)

theorem Draining.drains (h : Working p w) :
    ∃ t served, Exact p (w.follow p env t) served ∧ AllGone (w.follow p env t) := by
  have hidle : ∀ t served, Idle p (w.follow p env t) served →
      ∃ t' served', Exact p (w.follow p env t') served' ∧ AllGone (w.follow p env t') := by
    intro t served h
    have hcount := hd.count h
    exact hd.all_gone (w.ctrlWritten.length + w.offered.length - served.length) t served h
      (by omega)
  cases h with
  | idle served h => exact hidle 0 served h
  | handing served r k h =>
    obtain ⟨t, -, hnext⟩ := hd.leaves (t := 0) h
    exact hidle t (served ++ [r]) hnext

end Drains

/-! ## Whole runs -/

/-- What the core does with the frames. -/
structure Sends (p : GbeTxParams) (w : TxWatch) : Prop where
  /-- when it is idle the MAC has got whole frames -/
  whole : w.sys.regs.macTxDvld = false → ∃ served, Exact p w served
  /-- an offer of the CPU that waits is started when it has come through the second register -/
  startsCpu : w.sys.regs.macTxDvld = false → w.waiting ≠ [] → w.sys.regs.cpuTxReadyRR = true →
    ∀ i, (w.step p i).sys.regs.macTxDvld = true
  /-- a frame of the application is started if it is enabled and has not overflowed -/
  startsApp : w.sys.regs.macTxDvld = false → w.sys.ctrlFifo ≠ [] →
    w.sys.regs.localEnableRR = true → w.sys.regs.appOverflowRR = false →
    ∀ i, (w.step p i).sys.regs.macTxDvld = true
  /-- the bytes that the MAC takes are those of one frame, and at its last byte the core is idle -/
  sends : w.sys.regs.macTxDvld = true → ∃ served r,
    w.frames = served.map (Request.bytes p) ∧ w.current <+: r.bytes p ∧
      (w.taking = true → ∀ is, AllFed p w is → w.current.length + is.length = (r.bytes p).length →
        (w.run p is).sys.regs.macTxDvld = false ∧ Exact p (w.run p is) (served ++ [r]))
  /-- when no more frames come, all of them leave -/
  drains : ∀ env, Draining p w env →
    ∃ t served, Exact p (w.follow p env t) served ∧ AllGone (w.follow p env t)
  /-- the headers of a frame have 42 bytes, and the sum of the words of the IP header is `0xffff` -/
  headers : ∀ c, (p.frameHeader c).length = 42 ∧ onesSum (words16 (p.ipHeader c)) = 0xffff

theorem Idle.starts (h : Idle p w served)
    (hstart : w.sys.regs.cpuStarts = true ∨ w.sys.regs.appStarts w.sys.ctrlFifo.isEmpty = true) :
    (w.step p i).sys.regs.macTxDvld = true := by
  refine bne_iff_ne.mpr ?_
  show w.sys.regs.nextTxState _ i ≠ .idle
  rw [GbeTx.nextTxState, h.state]
  by_cases hcpu : w.sys.regs.cpuStarts = true
  · rw [hcpu]
    exact fun hne => TxState.noConfusion hne
  · rw [hstart.resolve_left hcpu, eq_false_of_ne_true hcpu]
    exact fun hne => TxState.noConfusion hne

theorem Working.sends (h : Working p w) : Sends p w := by
  refine ⟨fun hidle => ?_, fun hidle hwaiting hready i => ?_, fun hidle hctrl he ho i => ?_,
    fun hbusy => ?_, fun env hd => hd.drains h, fun c => ⟨rfl, p.onesSum_ipHeader c⟩⟩
  · cases h with
    | idle served h => exact ⟨served, h.exact⟩
    | handing served r k h => exact absurd (macTxDvld_eq_false.mp hidle) h.seen.1
  · cases h with
    | idle served h =>
      refine h.starts (.inl ?_)
      rw [GbeTx.cpuStarts, hready, (offer_of_waiting hwaiting).2]
      rfl
    | handing served r k h => exact absurd (macTxDvld_eq_false.mp hidle) h.seen.1
  · cases h with
    | idle served h =>
      refine h.starts (.inr ?_)
      rw [GbeTx.appStarts, he, ho, List.isEmpty_eq_false_iff.mpr hctrl]
      rfl
    | handing served r k h => exact absurd (macTxDvld_eq_false.mp hidle) h.seen.1
  · cases h with
    | idle served h =>
      exact absurd (macTxDvld_eq_false.mpr h.state) (Bool.not_eq_false _ ▸ hbusy)
    | handing served r k h =>
      obtain ⟨-, hk, htaking, hcurrent, hframes⟩ := h.seen
      refine ⟨served, r, hframes, hcurrent ▸ List.take_prefix k _, fun htakes is hall hlen => ?_⟩
      rw [hcurrent, List.length_take, Nat.min_eq_left (Nat.le_of_lt hk)] at hlen
      have hidle := Handing.run_finish is w k h (of_decide_eq_true (htaking ▸ htakes)) hall hlen
      exact ⟨macTxDvld_eq_false.mpr hidle.state, hidle.exact⟩

/--
**Every frame leaves once, whole and unmixed**: in every state of a run.
-/
theorem Resting.run_sends (h : Resting w) (is : List GbeTxIn) (hall : AllFed p w is) :
    Sends p (w.run p is) :=
  (Working.run is w (.idle [] h.idle) hall).sends

/-! ## A frame of the CPU and one of the application, sent -/

/-- A half of the buffer with the bytes 0, 1, 2 and so on. -/
def counting (a : BitVec 11) : BitVec 8 := a.setWidth 8

/-- What happens in a cycle of the run below. -/
structure Cycle where
  ack : Bool
  /-- the CPU offers one word -/
  ready : Bool
  /-- the application writes two bytes and their entry -/
  writes : Bool

/-- The entry of the frame of the application. -/
def twoBytes : TxCtrl := ⟨2, 10001, 0x0a00_0002⟩

def Cycle.input (c : Cycle) : GbeTxIn where
  macTxAck := c.ack
  localEnable := true
  appOverflow := false
  cpuTxReady := c.ready
  cpuTxSize := 1
  cpuBuffer := fun _ => counting
  packetWr := if c.writes then [0xaa, 0xbb] else []
  ctrlWr := if c.writes then [twoBytes] else []

/-- The core after its reset. -/
def rested : TxWatch where
  sys := ⟨⟨.idle, 0, 0, false, false, false, false, 0, false, false, false, false, false, false, 0,
    0, 0, 0, 0, 0, 0, 0, .idle, 0, 0⟩, [], []⟩
  waited := 0
  taking := false
  current := []
  frames := []
  packetWritten := []
  ctrlWritten := []
  offered := []
  offer := ⟨1, counting⟩
  sending := counting

/-- Parameters for a run. -/
def ourParams : GbeTxParams := ⟨0x0202_0a00_0001, 0x0a00_0001, 10000, 1, fun a => a.setWidth 48⟩

/-- What is done in the cycle fits the state. -/
def fits (w : TxWatch) (i : GbeTxIn) : Bool :=
  (!i.macTxAck || !w.taking && 8 ≤ w.waited) &&
    totalSize (w.ctrlWritten ++ i.ctrlWr) ≤ (w.packetWritten ++ i.packetWr).length &&
    i.ctrlWr.all (1 ≤ ·.size.toNat) && w.sys.packetFifo.length ≤ packetFifoDepth &&
    (!w.offers i || !w.sys.regs.cpuAck) &&
    (!w.sys.regs.cpuTxReadyR || w.sys.regs.cpuAck || i.cpuTxReady)

/-- What is done fits in each cycle. -/
def allFit (p : GbeTxParams) : TxWatch → List Cycle → Bool
  | _, [] => true
  | w, c :: cs => w.fits c.input && allFit p (w.step p c.input) cs

theorem fed_of_fits {c : Cycle} (hoffer : w.offer = ⟨1, counting⟩) (hsending : w.sending = counting)
    (hfits : w.fits c.input = true) : Fed w c.input := by
  simp only [fits, Bool.and_eq_true, Bool.or_eq_true, Bool.not_eq_true', decide_eq_true_eq,
    List.all_eq_true] at hfits
  obtain ⟨⟨⟨⟨⟨hack, hwritten⟩, hsize⟩, hdepth⟩, hnew⟩, hkept⟩ := hfits
  refine ⟨fun h => ?_, hwritten, hsize, hdepth, fun h => ?_, fun hr ha => ?_,
    fun _ => hsending.symm⟩
  · exact hack.resolve_left (by rw [h]; decide)
  · exact ⟨hnew.resolve_left (by rw [h]; decide), Nat.le_refl 1⟩
  · refine ⟨hkept.resolve_left ?_, hoffer.symm⟩
    rw [hr, ha]
    decide

theorem allFed_of_allFit : ∀ (cs : List Cycle) (w : TxWatch), w.offer = ⟨1, counting⟩ →
    w.sending = counting → allFit p w cs = true → AllFed p w (cs.map Cycle.input)
  | [], _, _, _, _ => trivial
  | c :: cs, w, hoffer, hsending, hall => by
    obtain ⟨hfits, hrest⟩ := Bool.and_eq_true_iff.mp hall
    refine ⟨fed_of_fits hoffer hsending hfits, allFed_of_allFit cs _ ?_ ?_ hrest⟩
    · show (if w.offers _ then w.newOffer _ else w.offer) = _
      rw [hoffer]
      exact ite_self _
    · show (if w.startsCpu then w.offer.half else w.sending) = _
      rw [hoffer, hsending, ite_self]

/--
Both become ready in the same cycle, and that of the CPU goes first.  The MAC acknowledges each of
them after some cycles.
-/
def bothCycles : List Cycle :=
  ⟨false, true, true⟩ :: List.replicate 10 ⟨false, true, false⟩ ++
    ⟨true, false, false⟩ :: List.replicate 17 ⟨false, false, false⟩ ++
    ⟨true, false, false⟩ :: List.replicate 44 ⟨false, false, false⟩

/-- The frames of the CPU and of the application are sent, one after the other. -/
theorem run_sends_both :
    Sends ourParams (rested.run ourParams (bothCycles.map Cycle.input)) ∧
      (rested.run ourParams (bothCycles.map Cycle.input)).got
        = [[0, 1, 2, 3, 4, 5, 6, 7], ourParams.frameHeader twoBytes ++ [0xaa, 0xbb]] :=
  ⟨Resting.run_sends ⟨rfl, ⟨rfl, rfl⟩, rfl, ⟨rfl, rfl⟩, rfl, rfl, rfl, ⟨rfl, rfl, rfl⟩⟩ _
    (allFed_of_allFit _ _ rfl rfl (by decide +kernel)), by decide +kernel⟩

/-! ## Both of them leave when nothing more comes -/

/-- What is done after the first cycle of the run above, and for ever after it. -/
def rest : Nat → GbeTxIn := fun t => (bothCycles.tail[t]?.getD ⟨false, false, false⟩).input

/-- The core when both frames have become ready. -/
def bothReady : TxWatch := rested.step ourParams (Cycle.input ⟨false, true, true⟩)

/-- The queues and the handshake of the CPU have come to rest. -/
def atRest (w : TxWatch) : Bool :=
  w.sys.regs.txState == .idle && !w.sys.regs.cpuTxReadyR && !w.sys.regs.cpuTxReadyRR &&
    w.sys.packetFifo.isEmpty && w.sys.ctrlFifo.isEmpty && !w.taking &&
    decide (totalSize w.ctrlWritten ≤ w.packetWritten.length)

/-- What is done in the cycle fits, nothing more comes, and no frame waits for its
acknowledgement. -/
def calm (w : TxWatch) (i : GbeTxIn) (waits : Bool) : Bool :=
  w.fits i && i.ctrlWr.isEmpty && !w.offers i && (waits || !w.sys.regs.macTxDvld || w.taking)

/--
The run is calm, until cycle 28 with frames that wait for their acknowledgement, and is at rest in
cycle 73.
-/
def calmsDown (t : Nat) (w : TxWatch) (i : GbeTxIn) : Bool :=
  w.calm i (decide (t ≤ 28)) && (decide (t < 73) || w.atRest)

/-- The check holds in cycle `t` and the cycles after it. -/
def along (p : GbeTxParams) (check : Nat → TxWatch → GbeTxIn → Bool) :
    Nat → TxWatch → List GbeTxIn → Bool
  | _, _, [] => true
  | t, w, i :: is => check t w i && along p check (t + 1) (w.step p i) is

theorem check_of_along {check : Nat → TxWatch → GbeTxIn → Bool} {env : Nat → GbeTxIn} :
    ∀ (is : List GbeTxIn) (t : Nat), along p check t (w.follow p env t) is = true →
      (∀ k (hk : k < is.length), env (t + k) = is[k]) →
      ∀ k < is.length, check (t + k) (w.follow p env (t + k)) (env (t + k)) = true
  | [], _, _, _, k, hk => absurd hk (Nat.not_lt_zero k)
  | i :: is, t, hall, henv, k, hk => by
    obtain ⟨hcheck, hrest⟩ := Bool.and_eq_true_iff.mp hall
    have hi : env t = i := henv 0 (Nat.succ_pos _)
    cases k with
    | zero => exact hi ▸ hcheck
    | succ k =>
      have hnext : w.follow p env (t + 1) = (w.follow p env t).step p i := hi ▸ rfl
      rw [← hnext] at hrest
      have ih := check_of_along is (t + 1) hrest
        (fun k hk => by rw [Nat.add_right_comm]; exact henv (k + 1) (Nat.succ_lt_succ hk))
        k (Nat.lt_of_succ_lt_succ hk)
      rwa [Nat.add_right_comm] at ih

/-- A cycle in which nothing happens. -/
def noCycle : GbeTxIn := Cycle.input ⟨false, false, false⟩

theorem rest_of_le {t : Nat} (ht : 73 ≤ t) : rest t = noCycle := by
  rw [rest, List.getElem?_eq_none (by exact ht)]
  rfl

theorem atRest_iff : w.atRest = true ↔ w.sys.regs.txState = .idle ∧ w.sys.regs.cpuTxReadyR = false ∧
    w.sys.regs.cpuTxReadyRR = false ∧ w.sys.packetFifo = [] ∧ w.sys.ctrlFifo = [] ∧
    w.taking = false ∧ totalSize w.ctrlWritten ≤ w.packetWritten.length := by
  simp [atRest, and_assoc]

theorem calm_of_atRest (h : w.atRest = true) : w.calm noCycle false = true := by
  obtain ⟨hstate, hready, -, hpacket, -, -, henough⟩ := atRest_iff.mp h
  simp [calm, fits, offers, noCycle, Cycle.input, GbeTx.macTxDvld, hstate, hready, hpacket, henough]

theorem atRest_step (h : w.atRest = true) : (w.step p noCycle).atRest = true := by
  obtain ⟨hstate, hready, hready', hpacket, hctrl, htaking, henough⟩ := atRest_iff.mp h
  obtain ⟨hctrlNext, hpacketNext⟩ := fifos_step (p := p) (i := noCycle) (w := w)
    (by rw [hstate]; decide)
  refine atRest_iff.mpr ⟨?_, rfl, hready, ?_, ?_, ?_, ?_⟩
  · show w.sys.regs.nextTxState _ _ = _
    rw [GbeTx.nextTxState, hstate, GbeTx.cpuStarts, hready', hctrl]
    simp [GbeTx.appStarts]
  · rw [hpacketNext, hpacket]
    rfl
  · rw [hctrlNext, hctrl]
    rfl
  · show w.takes noCycle = false
    rw [takes, GbeTx.macTxDvld, hstate]
    rfl
  · show totalSize (w.ctrlWritten ++ []) ≤ (w.packetWritten ++ []).length
    rwa [List.append_nil, List.append_nil]

theorem calmsDown_bothReady (t : Nat) (ht : t < 74) :
    (bothReady.follow ourParams rest t).calmsDown t (rest t) = true := by
  have halong : along ourParams calmsDown 0 (bothReady.follow ourParams rest 0)
      ((List.range 74).map rest) = true := by
    decide +kernel
  have hall := check_of_along _ 0 halong (fun k hk => by simp) t (by simpa using ht)
  rwa [Nat.zero_add] at hall

theorem atRest_bothReady (t : Nat) (ht : 73 ≤ t) :
    (bothReady.follow ourParams rest t).atRest = true := by
  obtain ⟨-, hrest⟩ := Bool.and_eq_true_iff.mp (calmsDown_bothReady 73 (by decide))
  exact atCycle_settled (step ourParams) bothReady (p := atRest) (t := 73) (fun _ => rest_of_le)
    hrest (fun _ => atRest_step) t ht

theorem calm_bothReady (t : Nat) :
    (bothReady.follow ourParams rest t).calm (rest t) (decide (t ≤ 28)) = true := by
  by_cases ht : t < 74
  · exact (Bool.and_eq_true_iff.mp (calmsDown_bothReady t ht)).1
  · rw [rest_of_le (by omega), decide_eq_false (by omega)]
    exact calm_of_atRest (atRest_bothReady t (by omega))

theorem offer_bothReady (t : Nat) : (bothReady.follow ourParams rest t).offer = ⟨1, counting⟩ ∧
    (bothReady.follow ourParams rest t).sending = counting := by
  induction t with
  | zero => exact ⟨rfl, rfl⟩
  | succ t ih =>
    constructor
    · show (if offers _ _ then newOffer _ _ else (follow _ _ _ _).offer) = _
      rw [ih.1]
      exact ite_self _
    · show (if startsCpu _ then (follow _ _ _ _).offer.half else (follow _ _ _ _).sending) = _
      rw [ih.1, ih.2, ite_self]

/-- The two frames are there and nothing more comes: what `Draining` asks of the environment. -/
theorem draining_bothReady : Draining ourParams bothReady rest := by
  have hcalm : ∀ t, _ := fun t => (Bool.and_eq_true_iff.mp (calm_bothReady t))
  refine ⟨fun t => ?_, fun t => ?_, fun t => ⟨rfl, rfl⟩, fun t hbusy htaking => ?_⟩
  · obtain ⟨hfed, -⟩ := Bool.and_eq_true_iff.mp (Bool.and_eq_true_iff.mp (hcalm t).1).1
    exact fed_of_fits (offer_bothReady t).1 (offer_bothReady t).2 hfed
  · obtain ⟨hfed, hoffers⟩ := Bool.and_eq_true_iff.mp (hcalm t).1
    obtain ⟨-, hctrl⟩ := Bool.and_eq_true_iff.mp hfed
    exact ⟨List.isEmpty_iff.mp hctrl, by rwa [Bool.not_eq_true'] at hoffers⟩
  · obtain ⟨-, hwaits⟩ := hcalm t
    rw [hbusy, htaking] at hwaits
    by_cases ht : t ≤ 28
    · exact ⟨28, ht, rfl⟩
    · rw [decide_eq_false ht] at hwaits
      exact absurd hwaits Bool.false_ne_true

end TxWatch

end MlibDevel.Onegbe
