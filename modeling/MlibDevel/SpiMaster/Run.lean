import MlibDevel.Lib.Cycles
import MlibDevel.SpiMaster.Core

/-!
# The transfers of commands (`spi_master.v`, `wb_spi_master.v`)

If each command is issued only after the pending bit has been seen clear, then what has been seen is
accounted for command by command: each gives as many rising edges of `sclk` as there are bits, with
its chip selects and its bits (`SpiWatch.At.step`).
-/

namespace MlibDevel.SpiMaster

open Lib

variable {w m k : Nat}

/-! ## The transfer of a command -/

/-- The rising edges of a transfer at which `bits` are sampled. -/
def transfer (q : Command w k) (bits : List Bool) : List (SclkEdge k) :=
  bits.mapIdx fun i b => ⟨q.cs, q.din.getLsbD (w - i), q.cs, q.din.getLsbD (w - i), b⟩

theorem transfer_concat (q : Command w k) (bits : List Bool) (b : Bool) :
    transfer q (bits ++ [b]) = transfer q bits ++
      [⟨q.cs, q.din.getLsbD (w - bits.length), q.cs, q.din.getLsbD (w - bits.length), b⟩] :=
  List.mapIdx_concat

/-- The word of the bits sampled, the first of them most significant. -/
def word (bits : List Bool) : BitVec (w + 1) := shiftAll 0 bits

/-- Nothing is left of what was in the register before. -/
theorem shiftAll_eq_word (r : BitVec (w + 1)) {bits : List Bool} (hlen : bits.length = w + 1) :
    shiftAll r bits = word bits := by
  apply BitVec.eq_of_getLsbD_eq
  intro j hj
  rw [word, getLsbD_shiftAll _ _ _ hj, getLsbD_shiftAll _ _ _ hj]
  have hrev : j < bits.reverse.length := by rw [List.length_reverse]; omega
  rw [List.getElem?_eq_getElem hrev]
  rfl

/-- After `j` shifts the next bit of the data is on top. -/
theorem getLsbD_shifted (d : BitVec (w + 1)) {j : Nat} (hj : j ≤ w) :
    (shiftAll d (List.replicate j false)).getLsbD w = d.getLsbD (w - j) := by
  rw [getLsbD_shiftAll _ _ _ (by omega), List.length_replicate, List.reverse_replicate,
    List.getElem?_eq_none (by rw [List.length_replicate]; exact hj)]
  rfl

/-- The lower part of the data-out register is the word that was written. -/
theorem setWidth_setLow (hw : w < 32) (x : BitVec 32) (d : BitVec (w + 1)) :
    (setLow x d).setWidth (w + 1) = d := by
  apply BitVec.eq_of_getLsbD_eq
  intro j hj
  simp only [setLow, BitVec.getLsbD_setWidth, BitVec.getLsbD_or, BitVec.getLsbD_shiftLeft]
  simp [hj, show j < 32 by omega]

/-! ## The Wishbone side -/

namespace SpiWatch

variable {s : SpiWatch w m k} {i : WbSpiIn}

/-- Without a command the Wishbone side does no more than take what the serial side has. -/
theorem wbEdge_of_not_issues (hrst : i.wbRst = false) (hno : s.issues i = false) :
    (s.core.wbEdge i).spiTrigger = s.core.takeDout.spiTrigger ∧
      (s.core.wbEdge i).spiAck = s.core.takeDout.spiAck ∧
      (s.core.wbEdge i).waitForSpi = s.core.takeDout.waitForSpi ∧
      (s.core.wbEdge i).spiEventCount = s.core.takeDout.spiEventCount ∧
      (s.core.wbEdge i).spiDoutReg = s.core.takeDout.spiDoutReg := by
  rw [WbSpi.wbEdge, hrst, if_neg Bool.false_ne_true]
  by_cases haccepts : s.core.accepts i = true
  · rw [if_pos haccepts]
    by_cases hwe : i.wbWe = true
    · rw [if_pos hwe]
      rw [issues, haccepts, hwe, Bool.true_and, Bool.true_and, beq_eq_false_iff_ne] at hno
      rw [WbSpi.write]
      split
      · next hzero => exact absurd hzero hno
      · exact ⟨rfl, rfl, rfl, rfl, rfl⟩
      · exact ⟨rfl, rfl, rfl, rfl, rfl⟩
    · rw [if_neg hwe, WbSpi.read]
      split <;> exact ⟨rfl, rfl, rfl, rfl, rfl⟩
  · rw [if_neg haccepts]
    exact ⟨rfl, rfl, rfl, rfl, rfl⟩

/-- With a command its trigger is set. -/
theorem wbEdge_of_issues (hrst : i.wbRst = false) (hyes : s.issues i = true) :
    s.core.wbEdge i =
      { s.core.takeDout with
        wbAck := true, csReg := byte i.wbDat 0, csIdleReg := byte i.wbDat 1
        spiTrigger := true, waitForSpi := true } := by
  obtain ⟨hboth, hzero⟩ := Bool.and_eq_true_iff.mp hyes
  obtain ⟨haccepts, hwe⟩ := Bool.and_eq_true_iff.mp hboth
  rw [WbSpi.wbEdge, hrst, if_neg Bool.false_ne_true, if_pos haccepts, if_pos hwe, WbSpi.write,
    beq_iff_eq.mp hzero]
  rfl

/-- A read of register 0 shows the pending bit as it was. -/
theorem polls_shows (hrst : i.wbRst = false) (hreading : (s.step i).reading = true) :
    (s.step i).core.wbDatO.getLsbD 31 = s.core.waitForSpi ∧ s.issues i = false := by
  obtain ⟨hboth, hzero⟩ := Bool.and_eq_true_iff.mp (show s.polls i = true from hreading)
  obtain ⟨haccepts, hwe⟩ := Bool.and_eq_true_iff.mp hboth
  rw [Bool.not_eq_true'] at hwe
  constructor
  · show (if (s.core.wbEdge i).wbAck then (s.core.wbEdge i).wbDataOutReg else 0).getLsbD 31 = _
    rw [WbSpi.wbEdge, hrst, if_neg Bool.false_ne_true, if_pos haccepts, hwe,
      if_neg Bool.false_ne_true, WbSpi.read, beq_iff_eq.mp hzero]
    show (BitVec.ofBool s.core.waitForSpi ++ BitVec.ofBool s.core.spi.dvld ++ 0#14 ++
      s.core.csIdleReg ++ s.core.csReg).getLsbD 31 = _
    rw [BitVec.getLsbD_append, if_neg (by omega), BitVec.getLsbD_append, if_neg (by omega),
      BitVec.getLsbD_append, if_neg (by omega), BitVec.getLsbD_append, if_neg (by omega),
      BitVec.getLsbD_ofBool]
    rfl
  · rw [issues, hwe, Bool.and_false, Bool.false_and]

/-- Nothing has come from the serial side. -/
theorem takeDout_of_not (h : (s.core.waitForSpi && s.core.spi.dvld) = false) :
    s.core.takeDout = { s.core with wbAck := false, spiTrigger := false, spiAck := false } := by
  rw [WbSpi.takeDout, h]
  rfl

end SpiWatch

/-! ## The serial side -/

namespace Spi

variable {s : Spi w m k} {i : SpiIn w k}

/-- How far a command has got, and the bits that have been sampled for it. -/
inductive Stage (s : Spi w m k) (d : BitVec (w + 1)) : List Bool → Prop
  | lead (state : s.state = .waitCs ∨ s.state = .wait ∨ s.state = .start) (din : s.dinInt = d) :
      Stage s d []
  | high (bits : List Bool) (state : s.state = .clkRise) (some : 0 < bits.length)
      (most : bits.length ≤ w + 1) (count : s.bitCnt = BitVec.ofNat 16 bits.length)
      (din : s.dinInt = shiftAll d (List.replicate (bits.length - 1) false))
      (dout : ∃ r, s.doutReg = shiftAll r bits) : Stage s d bits
  | low (bits : List Bool) (state : s.state = .clkFall) (most : bits.length ≤ w)
      (count : s.bitCnt = BitVec.ofNat 16 (bits.length + 1))
      (din : s.dinInt = shiftAll d (List.replicate bits.length false))
      (dout : ∃ r, s.doutReg = shiftAll r bits) : Stage s d bits
  | trail (bits : List Bool) (state : s.state = .fin ∨ s.state = .awaitAck)
      (all : bits.length = w + 1) (dout : ∃ r, s.doutReg = shiftAll r bits) : Stage s d bits

/-- The command is carried out, with its chip selects. -/
structure Serving (s : Spi w m k) (q : Command w k) (bits : List Bool) : Prop where
  cs : s.csInt = q.cs
  csIdle : s.csIdleInt = q.csIdle
  stage : Stage s q.din bits

theorem Stage.ne_idle {d : BitVec (w + 1)} {bits : List Bool} (h : Stage s d bits) :
    s.state ≠ .idle := by
  intro hidle
  cases h with
  | lead state din => rcases state with hs | hs | hs <;> rw [hs] at hidle <;> cases hidle
  | high bits state => rw [state] at hidle; cases hidle
  | low bits state => rw [state] at hidle; cases hidle
  | trail bits state => rcases state with hs | hs <;> rw [hs] at hidle <;> cases hidle

/-- The chip selects change only when a command is taken. -/
theorem edge_cs_of_ne_idle (hidle : s.state ≠ .idle) :
    (s.edge i).csInt = s.csInt ∧ (s.edge i).csIdleInt = s.csIdleInt := by
  rw [edge]
  split
  · next h => exact absurd h hidle
  all_goals first | exact ⟨rfl, rfl⟩ | (split <;> exact ⟨rfl, rfl⟩) | skip
  split
  · split <;> exact ⟨rfl, rfl⟩
  · exact ⟨rfl, rfl⟩

/-- The rising edge of `sclk` from one cycle to the next, if there is one. -/
def risen (s next : Spi w m k) (miso : Bool) : List (SclkEdge k) :=
  if !s.sclk && next.sclk then [⟨s.cs, s.mosi, next.cs, next.mosi, miso⟩] else []

theorem risen_of_high (next : Spi w m k) (miso : Bool) (h : s.sclk = true) :
    risen s next miso = [] := by
  simp [risen, h]

theorem risen_of_low (s : Spi w m k) {next : Spi w m k} (miso : Bool) (h : next.sclk = false) :
    risen s next miso = [] := by
  simp [risen, h]

/-- Before the first bit, `sclk` rises when the bit is sampled. -/
theorem stage_start {d : BitVec (w + 1)} (hstate : s.state = .start) (hdin : s.dinInt = d)
    (hpos : s.sclkPosedge = true) :
    Stage (s.edge i) d [i.miso] ∧
      risen s (s.edge i) i.miso
        = [⟨s.csInt, d.getLsbD (w - 0), s.csInt, d.getLsbD (w - 0), i.miso⟩] := by
  have hedge : s.edge i = { s.tick i with
      state := .clkRise, bitCnt := 1, doutReg := shiftIn s.doutReg i.miso } := by
    simp only [edge, hstate, hpos, if_true]
  constructor
  · refine .high [i.miso] ?_ (by simp) (by simp) ?_ ?_ ⟨s.doutReg, ?_⟩
    · rw [hedge]
    · rw [hedge]
      rfl
    · rw [hedge]
      exact hdin
    · rw [hedge]
      rfl
  · simp [risen, hedge, sclk, cs, mosi, hstate, tick, hdin]

/-- While `sclk` is high it can only fall, and the next bit is shifted up. -/
theorem stage_high (hw : w < 32) {d : BitVec (w + 1)} {bits : List Bool}
    (hstate : s.state = .clkRise) (hsome : 0 < bits.length) (hmost : bits.length ≤ w + 1)
    (hcount : s.bitCnt = BitVec.ofNat 16 bits.length)
    (hdin : s.dinInt = shiftAll d (List.replicate (bits.length - 1) false))
    (hdout : ∃ r, s.doutReg = shiftAll r bits) : Stage (s.edge i) d bits := by
  by_cases hneg : s.sclkNegedge = true
  · by_cases hlast : bits.length = w + 1
    · have hedge : s.edge i = { s.tick i with state := .fin } := by
        simp only [edge, hstate, hneg, hcount, hlast, if_true, beq_self_eq_true]
      rw [hedge]
      exact .trail bits (.inl rfl) hlast hdout
    · have hcmp : (BitVec.ofNat 16 bits.length == BitVec.ofNat 16 (w + 1)) = false := by
        rw [beq_eq_false_iff_ne]
        intro heq
        have hnat := congrArg BitVec.toNat heq
        rw [BitVec.toNat_ofNat, BitVec.toNat_ofNat] at hnat
        omega
      have hedge : s.edge i = { s.tick i with
          state := .clkFall, bitCnt := s.bitCnt + 1, dinInt := shiftIn s.dinInt false } := by
        simp only [edge, hstate, hneg, hcount, hcmp, if_true, if_false, Bool.false_eq_true]
      rw [hedge]
      refine .low bits rfl (by omega) ?_ ?_ hdout
      · show s.bitCnt + 1 = _
        rw [hcount, BitVec.ofNat_add]
        rfl
      · show shiftIn s.dinInt false = _
        obtain ⟨n, hn⟩ := Nat.exists_eq_succ_of_ne_zero (Nat.ne_of_gt hsome)
        rw [hdin, ← shiftAll_concat, hn, Nat.succ_sub_one, List.replicate_succ']
  · have hedge : s.edge i = s.tick i := by
      simp only [edge, hstate, hneg, if_false, Bool.false_eq_true]
    rw [hedge]
    exact .high bits hstate hsome hmost hcount hdin hdout

/-- Between two bits, `sclk` rises when the next bit is sampled. -/
theorem stage_low {d : BitVec (w + 1)} {bits : List Bool} (hstate : s.state = .clkFall)
    (hmost : bits.length ≤ w) (hcount : s.bitCnt = BitVec.ofNat 16 (bits.length + 1))
    (hdin : s.dinInt = shiftAll d (List.replicate bits.length false))
    (hdout : ∃ r, s.doutReg = shiftAll r bits) (hpos : s.sclkPosedge = true) :
    Stage (s.edge i) d (bits ++ [i.miso]) ∧
      risen s (s.edge i) i.miso = [⟨s.csInt, d.getLsbD (w - bits.length), s.csInt,
        d.getLsbD (w - bits.length), i.miso⟩] := by
  have hedge : s.edge i = { s.tick i with
      doutReg := shiftIn s.doutReg i.miso, state := .clkRise } := by
    simp only [edge, hstate, hpos, if_true]
  have htop := getLsbD_shifted d hmost
  rw [← hdin] at htop
  obtain ⟨r, hr⟩ := hdout
  constructor
  · refine .high _ ?_ (by simp) (by simp [hmost]) ?_ ?_ ⟨r, ?_⟩
    · rw [hedge]
    · rw [hedge, List.length_append, List.length_singleton]
      exact hcount
    · rw [hedge, List.length_append, List.length_singleton, Nat.add_sub_cancel]
      exact hdin
    · rw [hedge, shiftAll_concat, ← hr]
  · rw [← htop]
    simp [risen, hedge, sclk, cs, mosi, hstate, tick]

/-- A cycle in which a command is carried out adds to its transfer what `sclk` does. -/
theorem Serving.edge (hw : w < 32) {q : Command w k} {bits : List Bool} (h : Serving s q bits)
    (hack : i.ack = false) :
    ∃ bits', Serving (s.edge i) q bits' ∧
      transfer q bits' = transfer q bits ++ risen s (s.edge i) i.miso := by
  obtain ⟨hcs, hidle⟩ := edge_cs_of_ne_idle (i := i) h.stage.ne_idle
  -- a bit is sampled
  have grows : ∀ b, Stage (s.edge i) q.din (bits ++ [b]) →
      risen s (s.edge i) b = [⟨s.csInt, q.din.getLsbD (w - bits.length), s.csInt,
        q.din.getLsbD (w - bits.length), b⟩] → b = i.miso →
      ∃ bits', Serving (s.edge i) q bits' ∧
        transfer q bits' = transfer q bits ++ risen s (s.edge i) i.miso := by
    intro b hstage hrisen hb
    subst hb
    refine ⟨_, ⟨hcs.trans h.cs, hidle.trans h.csIdle, hstage⟩, ?_⟩
    rw [transfer_concat, hrisen, h.cs]
  -- no bit is sampled
  have stays : Stage (s.edge i) q.din bits → risen s (s.edge i) i.miso = [] →
      ∃ bits', Serving (s.edge i) q bits' ∧
        transfer q bits' = transfer q bits ++ risen s (s.edge i) i.miso := by
    intro hstage hrisen
    refine ⟨_, ⟨hcs.trans h.cs, hidle.trans h.csIdle, hstage⟩, ?_⟩
    rw [hrisen, List.append_nil]
  cases h.stage with
  | lead state din =>
    rcases state with hstate | hstate | hstate
    · by_cases hneg : s.sclkNegedge = true
      · have hedge : s.edge i = { s.tick i with state := .wait } := by
          simp only [Spi.edge, hstate, hneg, if_true]
        rw [hedge] at stays ⊢
        exact stays (.lead (.inr (.inl rfl)) din) (risen_of_low _ _ rfl)
      · have hedge : s.edge i = s.tick i := by
          simp only [Spi.edge, hstate, hneg, if_false, Bool.false_eq_true]
        rw [hedge] at stays ⊢
        exact stays (.lead (.inl hstate) din) (risen_of_low _ _ (by simp [sclk, tick, hstate]))
    · by_cases hneg : s.sclkNegedge = true
      · have hedge : s.edge i = { s.tick i with state := .start } := by
          simp only [Spi.edge, hstate, hneg, if_true]
        rw [hedge] at stays ⊢
        exact stays (.lead (.inr (.inr rfl)) din) (risen_of_low _ _ rfl)
      · have hedge : s.edge i = s.tick i := by
          simp only [Spi.edge, hstate, hneg, if_false, Bool.false_eq_true]
        rw [hedge] at stays ⊢
        exact stays (.lead (.inr (.inl hstate)) din)
          (risen_of_low _ _ (by simp [sclk, tick, hstate]))
    · by_cases hpos : s.sclkPosedge = true
      · obtain ⟨hstage, hrisen⟩ := stage_start (i := i) hstate din hpos
        exact grows i.miso hstage hrisen rfl
      · have hedge : s.edge i = s.tick i := by
          simp only [Spi.edge, hstate, hpos, if_false, Bool.false_eq_true]
        rw [hedge] at stays ⊢
        exact stays (.lead (.inr (.inr hstate)) din)
          (risen_of_low _ _ (by simp [sclk, tick, hstate]))
  | high bits state some most count din dout =>
    exact stays (stage_high hw state some most count din dout)
      (risen_of_high _ _ (by simp [sclk, state]))
  | low bits state most count din dout =>
    by_cases hpos : s.sclkPosedge = true
    · obtain ⟨hstage, hrisen⟩ := stage_low (i := i) state most count din dout hpos
      exact grows i.miso hstage hrisen rfl
    · have hedge : s.edge i = s.tick i := by
        simp only [Spi.edge, state, hpos, if_false, Bool.false_eq_true]
      rw [hedge] at stays ⊢
      exact stays (.low bits state most count din dout)
        (risen_of_low _ _ (by simp [sclk, tick, state]))
  | trail bits state all dout =>
    rcases state with hstate | hstate
    · have hrisen := risen_of_high (s.edge i) i.miso (show s.sclk = true by simp [sclk, hstate])
      by_cases hpos : s.sclkPosedge = true
      · have hedge : s.edge i = { s.tick i with state := .awaitAck } := by
          simp only [Spi.edge, hstate, hpos, if_true]
        refine stays ?_ hrisen
        rw [hedge]
        exact .trail bits (.inr rfl) all dout
      · have hedge : s.edge i = s.tick i := by
          simp only [Spi.edge, hstate, hpos, if_false, Bool.false_eq_true]
        refine stays ?_ hrisen
        rw [hedge]
        exact .trail bits (.inl hstate) all dout
    · have hedge : s.edge i = s.tick i := by
        simp only [Spi.edge, hstate, hack, if_false, Bool.false_eq_true]
      have hrisen := risen_of_high (s.edge i) i.miso (show s.sclk = true by simp [sclk, hstate])
      refine stays ?_ hrisen
      rw [hedge]
      exact .trail bits (.inr hstate) all dout

end Spi

/-! ## The commands one after the other -/

namespace SpiWatch

variable {s : SpiWatch w m k} {i : WbSpiIn}

/-- No read has shown that nothing is pending, and the one being answered does not either. -/
structure Hidden (s : SpiWatch w m k) : Prop where
  shown : s.shown = false
  reading : s.reading = true → s.core.wbDatO.getLsbD 31 = true

/-- No command comes while the last one is not known to be finished. -/
theorem Hidden.not_issues (h : Hidden s) (hcare : s.Careful i) : s.issues i = false := by
  rw [← Bool.not_eq_true]
  intro hissues
  have hshown := hcare.command hissues
  rw [h.shown] at hshown
  cases hshown

theorem Hidden.step (h : Hidden s) (hcare : s.Careful i) (hwait : s.core.waitForSpi = true) :
    Hidden (s.step i) := by
  constructor
  · have hno := h.not_issues hcare
    show (if s.issues i then false else s.shown || s.reading && !s.core.wbDatO.getLsbD 31) = false
    rw [hno, if_neg Bool.false_ne_true, h.shown, Bool.false_or]
    by_cases hreading : s.reading = true
    · rw [h.reading hreading, Bool.not_true, Bool.and_false]
    · rw [eq_false_of_ne_true hreading, Bool.false_and]
  · intro hreading
    rw [(polls_shows hcare.noReset hreading).1, hwait]

/-- Where the last command is: `pending` is the one being carried out, with the bits sampled. -/
inductive Phase (s : SpiWatch w m k) (done : List (Command w k × List Bool)) :
    List (Command w k × List Bool) → Prop
  | quiet (wait : s.core.waitForSpi = false) (ack : s.core.spiAck = false)
      (trigger : s.core.spiTrigger = false) (idle : s.core.spi.state = .idle)
      (rest : ∀ p ∈ done.getLast?, s.core.spi.csIdleInt = p.1.csIdle) : Phase s done []
  | triggered (q : Command w k) (hidden : Hidden s) (wait : s.core.waitForSpi = true)
      (ack : s.core.spiAck = false) (trigger : s.core.spiTrigger = true)
      (idle : s.core.spi.state = .idle) (fresh : s.core.spi.triggerR = false)
      (cs : s.core.csReg.setWidth k = q.cs) (csIdle : s.core.csIdleReg.setWidth k = q.csIdle)
      (din : s.core.dinReg.setWidth (w + 1) = q.din) : Phase s done [(q, [])]
  | serving (q : Command w k) (bits : List Bool) (hidden : Hidden s)
      (wait : s.core.waitForSpi = true) (ack : s.core.spiAck = false)
      (serving : s.core.spi.Serving q bits) : Phase s done [(q, bits)]
  | acking (hidden : Hidden s) (wait : s.core.waitForSpi = false) (ack : s.core.spiAck = true)
      (state : s.core.spi.state = .awaitAck)
      (rest : ∀ p ∈ done.getLast?, s.core.spi.csIdleInt = p.1.csIdle) : Phase s done []

/-- What has been seen is what the commands that are done and the pending one account for. -/
structure At (s : SpiWatch w m k) (c : BitVec 32) (done pending : List (Command w k × List Bool)) :
    Prop where
  phase : Phase s done pending
  commands : s.commands = (done ++ pending).map Prod.fst
  edges : s.edges = (done ++ pending).flatMap fun p => transfer p.1 p.2
  full : ∀ p ∈ done, p.2.length = w + 1
  finished : s.finished = done.mapIdx fun n p => (word p.2, c + BitVec.ofNat 32 (n + 1))
  count : s.core.spiEventCount = c + BitVec.ofNat 32 done.length
  dout : ∀ p ∈ done.getLast?, s.core.spiDoutReg.setWidth (w + 1) = word p.2

theorem edges_step : (s.step i).edges =
    s.edges ++ Spi.risen s.core.spi (s.core.spi.edge (s.core.toSpi i)) i.miso := by
  rw [Spi.risen]
  show (if !s.core.spi.sclk && (s.core.spi.edge (s.core.toSpi i)).sclk then _ else s.edges) = _
  split
  · rfl
  · rw [List.append_nil]

theorem commands_step_of_not_issues (hno : s.issues i = false) :
    (s.step i).commands = s.commands := by
  show (if s.issues i then _ else s.commands) = _
  rw [hno, if_neg Bool.false_ne_true]

theorem finished_step_of_not (h : (s.core.waitForSpi && !(s.core.wbEdge i).waitForSpi) = false) :
    (s.step i).finished = s.finished := by
  show (if s.core.waitForSpi && !(s.core.wbEdge i).waitForSpi then _ else s.finished) = _
  rw [h, if_neg Bool.false_ne_true]

/-- A cycle in which no command comes and none is finished. -/
theorem At.keeps {c : BitVec 32} {done pending pending' : List (Command w k × List Bool)}
    (h : At s c done pending) (hrst : i.wbRst = false) (hno : s.issues i = false)
    (hnot : (s.core.waitForSpi && s.core.spi.dvld) = false)
    (hphase : Phase (s.step i) done pending')
    (hcommands : pending'.map Prod.fst = pending.map Prod.fst)
    (hedges : pending'.flatMap (fun p => transfer p.1 p.2) =
      pending.flatMap (fun p => transfer p.1 p.2) ++
        Spi.risen s.core.spi (s.core.spi.edge (s.core.toSpi i)) i.miso) :
    At (s.step i) c done pending' := by
  obtain ⟨-, -, hwait, hcount, hdout⟩ := wbEdge_of_not_issues hrst hno
  rw [takeDout_of_not hnot] at hwait hcount hdout
  refine ⟨hphase, ?_, ?_, h.full, ?_, hcount.trans h.count, ?_⟩
  · rw [commands_step_of_not_issues hno, h.commands, List.map_append, List.map_append, hcommands]
  · rw [edges_step, h.edges, List.flatMap_append, List.flatMap_append, hedges, List.append_assoc]
  · rw [finished_step_of_not (by rw [hwait, Bool.and_not_self]), h.finished]
  · intro p hp
    rw [← h.dout p hp]
    exact congrArg (BitVec.setWidth (w + 1)) hdout

variable {c : BitVec 32} {done : List (Command w k × List Bool)}

/-- What the serial side does in a cycle without a trigger while it is idle. -/
theorem edge_of_idle {t : Spi w m k} {j : SpiIn w k} (hidle : t.state = .idle)
    (htrigger : j.trigger = false) : t.edge j = { t.tick j with bitCnt := 0 } := by
  simp only [Spi.edge, hidle, htrigger, Bool.false_and, if_false, Bool.false_eq_true]

/-- A trigger takes the command. -/
theorem edge_of_trigger {t : Spi w m k} {j : SpiIn w k} (hidle : t.state = .idle)
    (htrigger : j.trigger = true) (hfresh : t.triggerR = false) :
    t.edge j = { t.tick j with
      bitCnt := 0, csInt := j.csIn, csIdleInt := j.csInIdle, dinInt := j.din
      state := .waitCs } := by
  simp only [Spi.edge, hidle, htrigger, hfresh, Bool.not_false, Bool.and_self, if_true]

/-- A command comes when the last one is finished. -/
theorem At.issued (h : At s c done []) (hrst : i.wbRst = false) (hyes : s.issues i = true)
    (hwait : s.core.waitForSpi = false) (htrigger : s.core.spiTrigger = false)
    (hidle : s.core.spi.state = .idle) : At (s.step i) c done [(s.command i, [])] := by
  have hnot : (s.core.waitForSpi && s.core.spi.dvld) = false := by rw [hwait, Bool.false_and]
  have hnext := wbEdge_of_issues hrst hyes
  rw [takeDout_of_not hnot] at hnext
  have hspi := edge_of_idle (j := s.core.toSpi i) hidle htrigger
  have hpolls : s.polls i = false := by
    obtain ⟨hboth, -⟩ := Bool.and_eq_true_iff.mp hyes
    rw [polls, (Bool.and_eq_true_iff.mp hboth).2, Bool.not_true, Bool.and_false, Bool.false_and]
  have hhidden : Hidden (s.step i) := by
    refine ⟨?_, fun hreading => ?_⟩
    · show (if s.issues i then false else _) = false
      rw [hyes, if_pos rfl]
    · rw [show (s.step i).reading = s.polls i from rfl, hpolls] at hreading
      cases hreading
  have hcore : (s.step i).core = { s.core.wbEdge i with spi := s.core.spi.edge (s.core.toSpi i) } :=
    rfl
  rw [hnext, hspi] at hcore
  refine ⟨.triggered (s.command i) hhidden ?_ ?_ ?_ ?_ ?_ ?_ ?_ ?_, ?_, ?_, h.full, ?_, ?_, ?_⟩
  · rw [hcore]
  · rw [hcore]
  · rw [hcore]
  · rw [hcore]
    exact hidle
  · rw [hcore]
    exact htrigger
  · rw [hcore]
    rfl
  · rw [hcore]
    rfl
  · rw [hcore]
    rfl
  · show (if s.issues i then s.commands ++ [s.command i] else s.commands) = _
    rw [hyes, if_pos rfl, h.commands, List.append_nil, List.map_append]
    rfl
  · rw [edges_step, hspi, Spi.risen_of_low _ _ (by simp [Spi.sclk, Spi.tick, hidle]), h.edges,
      List.append_nil, List.append_nil, List.flatMap_append]
    simp [transfer]
  · rw [finished_step_of_not (by rw [hwait, Bool.false_and]), h.finished]
  · rw [hcore]
    exact h.count
  · rw [hcore]
    exact h.dout

/-- The command that is pending is finished. -/
theorem At.finishes (hw : w < 32) {q : Command w k} {bits : List Bool}
    (h : At s c done [(q, bits)]) (hcare : s.Careful i) (hhidden : Hidden s)
    (hwait : s.core.waitForSpi = true) (hack : s.core.spiAck = false)
    (hserving : s.core.spi.Serving q bits) (hstate : s.core.spi.state = .awaitAck) :
    At (s.step i) c (done ++ [(q, bits)]) [] := by
  have hno := hhidden.not_issues hcare
  obtain ⟨-, hnack, hnwait, hncount, hndout⟩ := wbEdge_of_not_issues hcare.noReset hno
  have htake : s.core.takeDout = { s.core with
      wbAck := false, spiTrigger := false, waitForSpi := false
      spiEventCount := s.core.spiEventCount + 1
      spiDoutReg := setLow s.core.spiDoutReg s.core.spi.doutReg, spiAck := true } := by
    rw [WbSpi.takeDout, hwait, Spi.dvld, hstate]
    rfl
  rw [htake] at hnack hncount hndout
  replace hnwait : (s.core.wbEdge i).waitForSpi = false := by rw [hnwait, htake]
  have hspi : s.core.spi.edge (s.core.toSpi i) = s.core.spi.tick (s.core.toSpi i) := by
    simp only [Spi.edge, hstate, WbSpi.toSpi, hack, if_false, Bool.false_eq_true]
  obtain ⟨hall, r, hr⟩ : bits.length = w + 1 ∧ ∃ r, s.core.spi.doutReg = shiftAll r bits := by
    cases hserving.stage with
    | trail bits state all dout => exact ⟨all, dout⟩
    | lead state => rw [hstate] at state; rcases state with h | h | h <;> cases h
    | high bits state => rw [hstate] at state; cases state
    | low bits state => rw [hstate] at state; cases state
  have hword : (s.core.wbEdge i).spiDoutReg.setWidth (w + 1) = word bits := by
    rw [hndout]
    show (setLow s.core.spiDoutReg s.core.spi.doutReg).setWidth (w + 1) = _
    rw [setWidth_setLow hw, hr, shiftAll_eq_word r hall]
  have hcount : (s.core.wbEdge i).spiEventCount = c + BitVec.ofNat 32 (done.length + 1) := by
    rw [hncount]
    show s.core.spiEventCount + 1 = _
    rw [h.count, BitVec.ofNat_add, BitVec.add_assoc]
    rfl
  refine ⟨.acking (hhidden.step hcare hwait) hnwait hnack ?_ ?_, ?_, ?_, ?_, ?_, ?_, ?_⟩
  · show (s.core.spi.edge (s.core.toSpi i)).state = _
    rw [hspi]
    exact hstate
  · intro p hp
    rw [List.getLast?_concat, Option.mem_some_iff] at hp
    subst hp
    show (s.core.spi.edge (s.core.toSpi i)).csIdleInt = _
    rw [hspi]
    exact hserving.csIdle
  · rw [commands_step_of_not_issues hno, h.commands, List.append_nil]
  · rw [edges_step, hspi, Spi.risen_of_high _ _ (by simp [Spi.sclk, hstate]), h.edges,
      List.append_nil, List.append_nil]
  · intro p hp
    rcases List.mem_append.mp hp with hp | hp
    · exact h.full p hp
    · rw [List.mem_singleton.mp hp, hall]
  · show (if s.core.waitForSpi && !(s.core.wbEdge i).waitForSpi then
      s.finished ++ [((s.core.wbEdge i).spiDoutReg.setWidth (w + 1),
      (s.core.wbEdge i).spiEventCount)]
        else s.finished) = _
    rw [hwait, hnwait, Bool.not_false, Bool.and_true, if_pos rfl, List.mapIdx_concat, h.finished,
      hword, hcount]
  · rw [List.length_append, List.length_singleton]
    exact hcount
  · intro p hp
    rw [List.getLast?_concat, Option.mem_some_iff] at hp
    subst hp
    exact hword

/-- A cycle of a run, whatever the phase it is in. -/
theorem At.step (hw : w < 32) {pending : List (Command w k × List Bool)} (h : At s c done pending)
    (hcare : s.Careful i) : ∃ done' pending', At (s.step i) c done' pending' := by
  have hrst := hcare.noReset
  cases h.phase with
  | quiet wait ack trigger idle rest =>
    by_cases hyes : s.issues i = true
    · exact ⟨_, _, h.issued hrst hyes wait trigger idle⟩
    · have hno := eq_false_of_ne_true hyes
      have hnot : (s.core.waitForSpi && s.core.spi.dvld) = false := by rw [wait, Bool.false_and]
      have hspi := edge_of_idle (j := s.core.toSpi i) idle trigger
      obtain ⟨htrigger, hack, hwait, -, -⟩ := wbEdge_of_not_issues hrst hno
      rw [takeDout_of_not hnot] at htrigger hack hwait
      refine ⟨_, _, h.keeps hrst hno hnot
        (.quiet (hwait.trans wait) hack htrigger ?_ ?_) rfl ?_⟩
      · show (s.core.spi.edge (s.core.toSpi i)).state = _
        rw [hspi]
        exact idle
      · show ∀ p ∈ _, (s.core.spi.edge (s.core.toSpi i)).csIdleInt = _
        rw [hspi]
        exact rest
      · rw [hspi, Spi.risen_of_low _ _ (by simp [Spi.sclk, Spi.tick, idle]), List.append_nil]
  | triggered q hidden wait ack trigger idle fresh cs csIdle din =>
    have hno := hidden.not_issues hcare
    have hnot : (s.core.waitForSpi && s.core.spi.dvld) = false := by
      rw [Spi.dvld, idle, Bool.and_eq_false_iff]
      exact .inr rfl
    have hspi := edge_of_trigger (j := s.core.toSpi i) idle trigger fresh
    obtain ⟨-, hack, hwait, -, -⟩ := wbEdge_of_not_issues hrst hno
    rw [takeDout_of_not hnot] at hack hwait
    refine ⟨_, _, h.keeps hrst hno hnot
      (.serving q [] (hidden.step hcare wait) (hwait.trans wait) hack ?_) rfl ?_⟩
    · show Spi.Serving (s.core.spi.edge (s.core.toSpi i)) q []
      rw [hspi]
      exact ⟨cs, csIdle, .lead (.inl rfl) din⟩
    · rw [hspi, Spi.risen_of_low _ _ rfl, List.append_nil]
  | serving q bits hidden wait ack serving =>
    have hno := hidden.not_issues hcare
    by_cases hstate : s.core.spi.state = .awaitAck
    · exact ⟨_, _, h.finishes hw hcare hidden wait ack serving hstate⟩
    · have hnot : (s.core.waitForSpi && s.core.spi.dvld) = false := by
        rw [Spi.dvld, beq_eq_false_iff_ne.mpr hstate, Bool.and_false]
      obtain ⟨bits', hserving, htransfer⟩ := serving.edge (i := s.core.toSpi i) hw ack
      obtain ⟨-, hack, hwait, -, -⟩ := wbEdge_of_not_issues hrst hno
      rw [takeDout_of_not hnot] at hack hwait
      refine ⟨_, _, h.keeps hrst hno hnot
        (.serving q bits' (hidden.step hcare wait) (hwait.trans wait) hack hserving) rfl ?_⟩
      rw [List.flatMap_singleton, List.flatMap_singleton, htransfer]
      rfl
  | acking hidden wait ack state rest =>
    have hno := hidden.not_issues hcare
    have hnot : (s.core.waitForSpi && s.core.spi.dvld) = false := by rw [wait, Bool.false_and]
    have hspi : s.core.spi.edge (s.core.toSpi i) =
        { s.core.spi.tick (s.core.toSpi i) with state := .idle } := by
      simp only [Spi.edge, state, WbSpi.toSpi, ack, if_true]
    obtain ⟨htrigger, hack, hwait, -, -⟩ := wbEdge_of_not_issues hrst hno
    rw [takeDout_of_not hnot] at htrigger hack hwait
    refine ⟨_, _, h.keeps hrst hno hnot
      (.quiet (hwait.trans wait) hack htrigger ?_ ?_) rfl ?_⟩
    · show (s.core.spi.edge (s.core.toSpi i)).state = _
      rw [hspi]
    · show ∀ p ∈ _, (s.core.spi.edge (s.core.toSpi i)).csIdleInt = _
      rw [hspi]
      exact rest
    · rw [hspi, Spi.risen_of_low _ _ rfl, List.append_nil]

end SpiWatch

end MlibDevel.SpiMaster
