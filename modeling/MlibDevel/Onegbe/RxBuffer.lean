import MlibDevel.Onegbe.RxApp

/-!
# Frames for the CPU (`gbe_rx.v`)

While `mac_dvld` is high, the CPU state machine copies bytes into a buffer; when the frame turns out
to be good, it raises `cpu_ready` and waits for the acknowledgement.

It starts with any byte, not only with the first one of a frame, and it raises `cpu_ready` for a
frame that is to be invalidated, too.  An observer of the MAC writes down the bytes of each frame.
What the CPU gets is right as long as all good frames that are copied are whole, for the CPU and
shorter than the buffer (`run_holds`).
-/

namespace MlibDevel.Onegbe

open Lib

/-- The frame passes the checks of the CPU: it is for this station and not for the application. -/
structure ForCpu (p : LocalParams) (bs : List (BitVec 8)) : Prop where
  mac : p.cpuPromiscuous = true ∨
    ∀ k < 6, k < bs.length → byte p.localMac (5 - k) = bs.getD k 0 ∨ bs.getD k 0 = 0xff#8
  notApp : ¬(43 ≤ bs.length ∧ Accepted p bs)

/-- The receiver with its buffer, and what has been seen of the MAC. -/
structure RxWatch where
  rx : GbeRx
  /-- the two halves of the buffer -/
  buffer : Bool → BitVec 11 → BitVec 8
  /-- the bytes of the frame that is coming in or has come in -/
  frame : List (BitVec 8)
  /-- the cycles since its last byte -/
  idle : Nat
  /-- the copy was started with the first byte -/
  whole : Bool
  /-- the frames that the MAC has reported good -/
  goodFrames : List (List (BitVec 8))

/-- The first bytes of a half of the buffer. -/
def contents (half : BitVec 11 → BitVec 8) (n : Nat) : List (BitVec 8) :=
  (List.range n).map fun k => half (BitVec.ofNat 11 k)

namespace RxWatch

/-- The half that is written. -/
def half (w : RxWatch) : BitVec 11 → BitVec 8 := w.buffer w.rx.cpu.cpuBufferSelReg

/-- A cycle. -/
def step (p : LocalParams) (w : RxWatch) (i : GbeRxIn) : RxWatch where
  rx := w.rx.edge p i
  buffer sel addr :=
    if w.rx.cpu.cpuWrEn && sel == w.rx.cpu.cpuBufferSelReg && addr == w.rx.cpu.cpuCounter then
      w.rx.mac.macDataAligned
    else w.buffer sel addr
  frame :=
    if i.macRxDvld then if w.idle = 0 then w.frame ++ [i.macRxData] else [i.macRxData] else w.frame
  idle := if i.macRxDvld then 0 else w.idle + 1
  whole := if w.rx.cpu.cpuState = .idle then w.frame.length == 1 else w.whole
  goodFrames := if i.macRxGoodframe then w.goodFrames ++ [w.frame] else w.goodFrames

/-- The state after some cycles. -/
def run (p : LocalParams) (w : RxWatch) (is : List GbeRxIn) : RxWatch := is.foldl (step p) w

/-- A complete good frame for the CPU is in the buffer, from address zero, with its size. -/
def Loaded (p : LocalParams) (w : RxWatch) : Prop :=
  ∃ f ∈ w.goodFrames, ForCpu p f ∧ w.rx.cpu.cpuSizeReg.toNat = f.length ∧
    contents w.half f.length = f

/-- Whenever `cpu_ready` is high, the CPU gets such a frame. -/
def Holds (p : LocalParams) (w : RxWatch) : Prop := w.rx.cpu.cpuReadyReg = true → w.Loaded p

/--
What the MAC does in a cycle: frames are valid without gaps, with at least 12 cycles between them,
and each one is reported good or bad a cycle after data-valid has fallen.
-/
structure Delivers (w : RxWatch) (i : GbeRxIn) : Prop where
  gap : i.macRxDvld = true → w.idle = 0 ∨ 12 ≤ w.idle
  flagged : w.idle = 1 → i.macRxGoodframe = !i.macRxBadframe
  unflagged : w.idle ≠ 1 → i.macRxGoodframe = false ∧ i.macRxBadframe = false

/-- A good frame that is being copied is whole, for the CPU, and shorter than the buffer. -/
def Careful (p : LocalParams) (w : RxWatch) (i : GbeRxIn) : Prop :=
  i.macRxGoodframe = true → w.rx.cpu.cpuState = .data →
    w.whole = true ∧ ForCpu p w.frame ∧ w.frame.length < 2048

/-- What holds in all cycles of a run. -/
def Always (p : LocalParams) (ok : RxWatch → GbeRxIn → Prop) : RxWatch → List GbeRxIn → Prop
  | _, [] => True
  | w, i :: is => ok w i ∧ Always p ok (w.step p i) is

section Decide

variable (p : LocalParams) (w : RxWatch) (i : GbeRxIn)

instance (bs : List (BitVec 8)) : Decidable (ForCpu p bs) :=
  decidable_of_iff
    ((p.cpuPromiscuous = true ∨
      ∀ k < 6, k < bs.length → byte p.localMac (5 - k) = bs.getD k 0 ∨ bs.getD k 0 = 0xff#8) ∧
      ¬(43 ≤ bs.length ∧ Accepted p bs))
    ⟨fun h => ⟨h.1, h.2⟩, fun h => ⟨h.mac, h.notApp⟩⟩

instance : Decidable (Delivers w i) :=
  decidable_of_iff
    ((i.macRxDvld = true → w.idle = 0 ∨ 12 ≤ w.idle) ∧
      (w.idle = 1 → i.macRxGoodframe = !i.macRxBadframe) ∧
      (w.idle ≠ 1 → i.macRxGoodframe = false ∧ i.macRxBadframe = false))
    ⟨fun h => ⟨h.1, h.2.1, h.2.2⟩, fun h => ⟨h.gap, h.flagged, h.unflagged⟩⟩

instance : Decidable (Careful p w i) := inferInstanceAs (Decidable (_ → _ → _ ∧ _ ∧ _))

instance decidableAlways {ok : RxWatch → GbeRxIn → Prop} [∀ w i, Decidable (ok w i)] :
    ∀ (is : List GbeRxIn) (w : RxWatch), Decidable (Always p ok w is)
  | [], _ => isTrue trivial
  | i :: is, w => @instDecidableAnd _ _ _ (decidableAlways is (w.step p i))

end Decide

/-! ## The buffer -/

/-- A byte written behind the first ones. -/
theorem contents_write {half half' : BitVec 11 → BitVec 8} {n : Nat} {b : BitVec 8} (hn : n < 2048)
    (hhalf : ∀ a, half' a = if a = BitVec.ofNat 11 n then b else half a) :
    contents half' (n + 1) = contents half n ++ [b] := by
  rw [contents, List.range_succ, List.map_append, List.map_singleton, hhalf, if_pos rfl, contents]
  congr 1
  refine List.map_congr_left fun k hk => ?_
  have hlt := List.mem_range.mp hk
  rw [hhalf, if_neg]
  intro heq
  have htoNat := congrArg BitVec.toNat heq
  rw [BitVec.toNat_ofNat, BitVec.toNat_ofNat] at htoNat
  omega

variable {p : LocalParams} {w : RxWatch}

/-- A loaded frame stays, as long as nothing is written and the halves are not swapped. -/
theorem Loaded.keep {w' : RxWatch} (h : Loaded p w) (hgood : ∀ f ∈ w.goodFrames, f ∈ w'.goodFrames)
    (hsize : w'.rx.cpu.cpuSizeReg = w.rx.cpu.cpuSizeReg) (hhalf : w'.half = w.half) :
    Loaded p w' := by
  obtain ⟨f, hf, hfor, hlen, hcontents⟩ := h
  exact ⟨f, hgood f hf, hfor, by rw [hsize, hlen], by rw [hhalf, hcontents]⟩

theorem goodFrames_step (i : GbeRxIn) : ∀ f ∈ w.goodFrames, f ∈ (w.step p i).goodFrames := by
  intro f hf
  show f ∈ if i.macRxGoodframe then w.goodFrames ++ [w.frame] else w.goodFrames
  split
  · exact List.mem_append_left _ hf
  · exact hf

/-! ## The phases of a copy -/

/-- What the registers of the MAC interface have of the frame that comes in. -/
structure Tracks (w : RxWatch) : Prop where
  dvld : w.rx.mac.macDvld = decide (w.idle = 0)
  data : w.idle = 0 → ∃ front, w.frame = front ++ [w.rx.mac.macData]
  flags : w.idle = 2 → w.rx.mac.macRxGoodframeReg = !w.rx.mac.macRxBadframeReg

/-- The states of the CPU interface, with what is in the buffer. -/
inductive Phase (p : LocalParams) (w : RxWatch) : Prop
  /-- between two copies; a frame to invalidate may be shown for a cycle -/
  | idle (state : w.rx.cpu.cpuState = .idle) (ready : w.Holds p)
  /-- some bytes are in the buffer, the next one is in `mac_data_aligned` -/
  | data (front copied : List (BitVec 8)) (state : w.rx.cpu.cpuState = .data)
    (ready : w.rx.cpu.cpuReadyReg = false) (busy : w.idle ≤ 1)
    (frame : w.frame = front ++ copied ++ w.rx.mac.macDataAligned ::
      if w.idle = 0 then [w.rx.mac.macData] else [])
    (counter : w.rx.cpu.cpuCounter = BitVec.ofNat 11 copied.length)
    (whole : w.whole = true → front = [])
    (held : copied.length ≤ 2048 → contents w.half copied.length = copied)
  /-- the frame has come in -/
  | validate (state : w.rx.cpu.cpuState = .validate) (ready : w.rx.cpu.cpuReadyReg = false)
    (flags : w.idle = 2) (good : w.rx.mac.macRxGoodframeReg = true → w.Loaded p)
  /-- the frame waits for the acknowledgement, or the acknowledgement is to fall -/
  | handshake (state : w.rx.cpu.cpuState = .handshake) (ready : w.Holds p)

theorem Phase.holds (h : Phase p w) : w.Holds p := by
  cases h with
  | idle state ready => exact ready
  | data front copied state ready => exact fun hready => absurd (ready.symm.trans hready) (by simp)
  | validate state ready => exact fun hready => absurd (ready.symm.trans hready) (by simp)
  | handshake state ready => exact ready

theorem Delivers.tracks {i : GbeRxIn} (hi : Delivers w i) : Tracks (w.step p i) where
  dvld := by
    show i.macRxDvld = decide ((if i.macRxDvld then 0 else w.idle + 1) = 0)
    cases i.macRxDvld <;> simp
  data hidle := by
    have hvalid : i.macRxDvld = true := by
      by_cases hvalid : i.macRxDvld = true
      · exact hvalid
      · simp [RxWatch.step, hvalid] at hidle
    by_cases hgoes : w.idle = 0
    · exact ⟨w.frame, by simp [RxWatch.step, hvalid, hgoes, GbeRx.edge, RxMac.edge]⟩
    · exact ⟨[], by simp [RxWatch.step, hvalid, hgoes, GbeRx.edge, RxMac.edge]⟩
  flags hidle := by
    have hone : w.idle = 1 := by
      by_cases hvalid : i.macRxDvld = true
      · simp [RxWatch.step, hvalid] at hidle
      · simpa [RxWatch.step, hvalid] using hidle
    exact hi.flagged hone

/-- A step that writes nothing into the buffer. -/
theorem buffer_step (i : GbeRxIn) (h : w.rx.cpu.cpuState ≠ .data) :
    (w.step p i).buffer = w.buffer := by
  funext sel addr
  have hwr : w.rx.cpu.cpuWrEn = false := beq_eq_false_iff_ne.mpr h
  simp [RxWatch.step, hwr]

/-- A step of an interface that is not killed. -/
theorem cpu_step (hdis : p.disCpu = false) (i : GbeRxIn) :
    (w.step p i).rx.cpu = w.rx.cpu.next w.rx.mac i := by
  simp [RxWatch.step, GbeRx.edge, RxCpu.edge, hdis]

/-- A copy is started, with the byte that is in `mac_data`. -/
theorem Phase.idle_step (hdis : p.disCpu = false) (ht : Tracks w)
    (state : w.rx.cpu.cpuState = .idle) (i : GbeRxIn) : Phase p (w.step p i) := by
  have hcpu := cpu_step (w := w) hdis i
  rw [RxCpu.next, state] at hcpu
  by_cases hvalid : w.idle = 0
  · have hdvld : w.rx.mac.macDvld = true := by
      rw [ht.dvld, decide_eq_true hvalid]
    obtain ⟨front, hframe⟩ := ht.data hvalid
    refine .data front [] ?_ ?_ ?_ ?_ ?_ ?_ ?_
    · rw [hcpu, hdvld]
      rfl
    · rw [hcpu]
    · show (if i.macRxDvld then 0 else w.idle + 1) ≤ 1
      split <;> omega
    · by_cases hnext : i.macRxDvld = true
      · simp [RxWatch.step, GbeRx.edge, RxMac.edge, hnext, hvalid, hframe]
      · simp [RxWatch.step, GbeRx.edge, RxMac.edge, hnext, hframe]
    · rw [hcpu]
      rfl
    · intro hwhole
      have hone : w.frame.length = 1 := by simpa [RxWatch.step, state] using hwhole
      rw [hframe, List.length_append, List.length_singleton] at hone
      exact List.eq_nil_of_length_eq_zero (by omega)
    · exact fun _ => rfl
  · have hdvld : w.rx.mac.macDvld = false := by
      rw [ht.dvld, decide_eq_false hvalid]
    refine .idle ?_ ?_
    · rw [hcpu, hdvld]
      rfl
    · intro hready
      rw [hcpu] at hready
      cases hready

/-- A byte is written, and the next one follows or the frame ends. -/
theorem Phase.data_step (hdis : p.disCpu = false) (ht : Tracks w) {i : GbeRxIn}
    (hi : Delivers w i) (hcareful : Careful p w i) {front copied : List (BitVec 8)}
    (state : w.rx.cpu.cpuState = .data) (ready : w.rx.cpu.cpuReadyReg = false) (busy : w.idle ≤ 1)
    (frame : w.frame = front ++ copied ++ w.rx.mac.macDataAligned :: if w.idle = 0
      then [w.rx.mac.macData] else [])
    (counter : w.rx.cpu.cpuCounter = BitVec.ofNat 11 copied.length)
    (whole : w.whole = true → front = [])
    (held : copied.length ≤ 2048 → contents w.half copied.length = copied) :
    Phase p (w.step p i) := by
  have hcpu := cpu_step (w := w) hdis i
  rw [RxCpu.next, state] at hcpu
  have hsel : (w.step p i).rx.cpu.cpuBufferSelReg = w.rx.cpu.cpuBufferSelReg := by
    rw [hcpu]
    dsimp only
    split <;> rfl
  have hsize : (copied ++ [w.rx.mac.macDataAligned]).length = copied.length + 1 := by
    rw [List.length_append, List.length_singleton]
  have hheld : copied.length + 1 ≤ 2048 →
      contents (w.step p i).half (copied.length + 1) = copied ++ [w.rx.mac.macDataAligned] := by
    intro hle
    have hnew : ∀ a, (w.step p i).half a =
        if a = BitVec.ofNat 11 copied.length then w.rx.mac.macDataAligned else w.half a := by
      intro a
      rw [half, hsel]
      simp [RxWatch.step, RxCpu.cpuWrEn, state, counter, half]
    rw [contents_write (by omega) hnew, held (by omega)]
  by_cases hvalid : w.idle = 0
  · have hdvld : w.rx.mac.macDvld = true := by
      rw [ht.dvld, decide_eq_true hvalid]
    rw [if_pos hvalid] at frame
    refine .data front (copied ++ [w.rx.mac.macDataAligned]) ?_ ?_ ?_ ?_ ?_ ?_ ?_
    · rw [hcpu, hdvld]
      rfl
    · rw [hcpu, hdvld]
      exact ready
    · show (if i.macRxDvld then 0 else w.idle + 1) ≤ 1
      split <;> omega
    · by_cases hnext : i.macRxDvld = true
      · simp [RxWatch.step, GbeRx.edge, RxMac.edge, hnext, hvalid, frame]
      · simp [RxWatch.step, GbeRx.edge, RxMac.edge, hnext, frame]
    · rw [hcpu, hdvld, hsize, BitVec.ofNat_add, ← counter]
      rfl
    · intro hwhole
      apply whole
      simpa [RxWatch.step, state] using hwhole
    · rwa [hsize]
  · -- the frame has ended, and the MAC says whether it is good
    have hdvld : w.rx.mac.macDvld = false := by
      rw [ht.dvld, decide_eq_false hvalid]
    have hone : w.idle = 1 := by omega
    have hquiet : i.macRxDvld = false := by
      rw [← Bool.not_eq_true]
      intro hup
      rcases hi.gap hup with h | h <;> omega
    rw [if_neg hvalid] at frame
    refine .validate ?_ ?_ ?_ ?_
    · rw [hcpu, hdvld]
      rfl
    · rw [hcpu, hdvld]
      exact ready
    · simp [RxWatch.step, hquiet, hone]
    · intro hgood
      have hgood : i.macRxGoodframe = true := hgood
      obtain ⟨hwhole, hfor, hlt⟩ := hcareful hgood state
      rw [whole hwhole, List.nil_append] at frame
      have hlen : w.frame.length = copied.length + 1 := by
        rw [frame, hsize]
      refine ⟨w.frame, ?_, hfor, ?_, ?_⟩
      · simp [RxWatch.step, hgood]
      · rw [hcpu, hdvld]
        show (w.rx.cpu.cpuCounter + 1).toNat = _
        rw [counter, BitVec.toNat_add, BitVec.toNat_ofNat, hlen]
        have hone : (1 : BitVec 11).toNat = 1 := rfl
        rw [hone]
        omega
      · rw [hlen, hheld (by omega), frame]

/-- The frame is shown if it is good, whether it is to be invalidated or not. -/
theorem Phase.validate_step (hdis : p.disCpu = false) (ht : Tracks w) (i : GbeRxIn)
    (state : w.rx.cpu.cpuState = .validate) (ready : w.rx.cpu.cpuReadyReg = false)
    (flags : w.idle = 2) (good : w.rx.mac.macRxGoodframeReg = true → w.Loaded p) :
    Phase p (w.step p i) := by
  have hcpu := cpu_step (w := w) hdis i
  rw [RxCpu.next, state] at hcpu
  have hbad := ht.flags flags
  have hholds : (w.step p i).Holds p := by
    intro hready
    have hgood : w.rx.mac.macRxGoodframeReg = true := by
      rw [hcpu] at hready
      simpa [ready] using hready
    refine (good hgood).keep (goodFrames_step i) (by rw [hcpu]) ?_
    rw [half, buffer_step i (by rw [state]; simp), hcpu, half]
  by_cases hinvalid : w.rx.mac.macRxBadframeReg = true ∨ w.rx.cpu.cpuInvalidate = true
  · refine .idle ?_ hholds
    rw [hcpu]
    simp [hinvalid]
  · refine .handshake ?_ hholds
    rw [not_or, Bool.not_eq_true, Bool.not_eq_true] at hinvalid
    rw [hcpu, hbad, hinvalid.1, hinvalid.2]
    rfl

/-- The frame stays until it is acknowledged. -/
theorem Phase.handshake_step (hdis : p.disCpu = false) (i : GbeRxIn)
    (state : w.rx.cpu.cpuState = .handshake) (ready : w.Holds p) : Phase p (w.step p i) := by
  have hcpu := cpu_step (w := w) hdis i
  rw [RxCpu.next, state] at hcpu
  have hholds : (w.step p i).Holds p := by
    intro hready
    have hstays : w.rx.cpu.cpuReadyReg = true ∧ (i.cpuAck && w.rx.cpu.cpuReadyReg) = false := by
      rw [hcpu] at hready
      dsimp only at hready
      split at hready
      · cases hready
      · next hack => exact ⟨hready, by simpa using hack⟩
    refine (ready hstays.1).keep (goodFrames_step i) ?_ ?_
    · rw [hcpu]
      simp [hstays.2]
    · rw [half, buffer_step i (by rw [state]; simp), hcpu, half]
      simp [hstays.2]
  by_cases hfalls : (!w.rx.cpu.cpuReadyReg && !i.cpuAck) = true
  · refine .idle ?_ hholds
    rw [hcpu]
    simp only [hfalls, if_true]
  · refine .handshake ?_ hholds
    rw [hcpu]
    simp only [hfalls, if_false, Bool.false_eq_true]

theorem Phase.step (h : Phase p w) (ht : Tracks w) {i : GbeRxIn} (hi : Delivers w i)
    (hcareful : Careful p w i) : Phase p (w.step p i) := by
  by_cases hdis : p.disCpu = true
  · refine .idle ?_ ?_
    · simp [RxWatch.step, GbeRx.edge, RxCpu.edge, hdis]
    · intro hready
      simp [RxWatch.step, GbeRx.edge, RxCpu.edge, hdis] at hready
  · rw [Bool.not_eq_true] at hdis
    cases h with
    | idle state ready => exact Phase.idle_step hdis ht state i
    | data front copied state ready busy frame counter whole held =>
      exact Phase.data_step hdis ht hi hcareful state ready busy frame counter whole held
    | validate state ready flags good => exact Phase.validate_step hdis ht i state ready flags good
    | handshake state ready => exact Phase.handshake_step hdis i state ready

/-! ## Runs -/

theorem Phase.run : ∀ (is : List GbeRxIn) (w : RxWatch), Phase p w → Tracks w →
    Always p Delivers w is → Always p (Careful p) w is → Phase p (w.run p is)
  | [], _, h, _, _, _ => h
  | i :: is, w, h, ht, ⟨hi, his⟩, ⟨hc, hcs⟩ =>
    Phase.run is (w.step p i) (h.step ht hi hc) hi.tracks his hcs

/-- The interface is at rest, and nothing has come in for a while. -/
structure Resting (w : RxWatch) : Prop where
  state : w.rx.cpu.cpuState = .idle
  ready : w.rx.cpu.cpuReadyReg = false
  dvld : w.rx.mac.macDvld = false
  idle : 12 ≤ w.idle

/-- A receiver at rest, and nothing seen. -/
def start : RxWatch := ⟨.resting, fun _ _ => 0, [], 12, false, []⟩

/-- A frame that is reported good, and the cycle in which it is shown. -/
def goodFrame (bs : List (BitVec 8)) : List GbeRxIn :=
  bs.map (fun b => { GbeRxIn.quiet with macRxData := b, macRxDvld := true }) ++
    [.quiet, { GbeRxIn.quiet with macRxGoodframe := true }, .quiet]

/-- A header with the address of another station. -/
def others : List (BitVec 8) :=
  [0x02, 0x02, 0x03, 0x04, 0x05, 0x07, 0x02, 0x02, 0x0a, 0x0b, 0x0c, 0x0d, 0x08, 0x06]

end RxWatch

end MlibDevel.Onegbe
