import MlibDevel.SpiMaster.Run

/-!
# Every command gives one transfer (`spi_master.v`, `wb_spi_master.v`)

What has been seen in a run of `wb_spi_master` is accounted for command by command, and no command
stays pending for ever (`Resting.run_transfers`).
-/

namespace MlibDevel.SpiMaster

open Lib

variable {w m k : Nat}

/-! ## The edges of the bit clock -/

namespace Spi

variable {s : Spi w m k} {i : SpiIn w k}

/-- The bit clock runs freely. -/
theorem edge_free : (s.edge i).sclkCtr = s.sclkCtr + 1 ∧ (s.edge i).sclkIntR = s.sclkInt := by
  rw [edge]
  split
  all_goals first | (split <;> exact ⟨rfl, rfl⟩) | skip
  split
  · split <;> exact ⟨rfl, rfl⟩
  · exact ⟨rfl, rfl⟩

/-- What a transfer waits for in a state: an edge of the bit clock. -/
def gate (x : State) (s : Spi w m k) : Bool :=
  match x with
  | .waitCs => s.sclkNegedge
  | .wait => s.sclkNegedge
  | .clkRise => s.sclkNegedge
  | _ => s.sclkPosedge

/-- How many edges of the bit clock a transfer waits for at most. -/
def budget (s : Spi w m k) : Nat :=
  match s.state with
  | .idle => 2 * w + 7
  | .waitCs => 2 * w + 6
  | .wait => 2 * w + 5
  | .start => 2 * w + 4
  | .clkRise => 2 * (w + 1 - s.bitCnt.toNat) + 3
  | .clkFall => 2 * (w + 1 - s.bitCnt.toNat) + 4
  | .fin => 2
  | .awaitAck => 1

theorem budget_pos (s : Spi w m k) : 0 < s.budget := by
  rw [budget]
  split <;> omega

/-- With the edge it waits for a transfer gets on, without it nothing changes. -/
theorem Stage.progress (hw : w < 32) {d : BitVec (w + 1)} {bits : List Bool} (h : Stage s d bits)
    (hstate : s.state ≠ .awaitAck) :
    (s.edge i).budget < s.budget ∨ gate s.state s = false ∧ (s.edge i).budget = s.budget ∧
      (s.edge i).state = s.state := by
  cases h with
  | lead state din =>
    rcases state with hs | hs | hs
    · by_cases hneg : s.sclkNegedge = true
      · left
        simp [budget, edge, hs, hneg]
      · right
        simp [budget, edge, gate, hs, hneg, tick]
    · by_cases hneg : s.sclkNegedge = true
      · left
        simp [budget, edge, hs, hneg]
      · right
        simp [budget, edge, gate, hs, hneg, tick]
    · by_cases hpos : s.sclkPosedge = true
      · left
        simp [budget, edge, hs, hpos]
      · right
        simp [budget, edge, gate, hs, hpos, tick]
  | high bits state some most count din dout =>
    have hcount : s.bitCnt.toNat = bits.length := by
      rw [count, BitVec.toNat_ofNat]
      omega
    by_cases hneg : s.sclkNegedge = true
    · left
      by_cases hlast : s.bitCnt = BitVec.ofNat 16 (w + 1)
      · simp [budget, edge, state, hneg, hlast]
      · have hlt : bits.length ≠ w + 1 := fun heq => hlast (by rw [count, heq])
        have hnext : (s.bitCnt + 1).toNat = bits.length + 1 := by
          rw [BitVec.toNat_add, hcount]
          show (bits.length + 1) % 65536 = _
          omega
        simp [budget, edge, state, hneg, hlast]
        omega
    · right
      simp [budget, edge, gate, state, hneg, tick]
  | low bits state most count din dout =>
    by_cases hpos : s.sclkPosedge = true
    · left
      simp [budget, edge, state, hpos, tick]
    · right
      simp [budget, edge, gate, state, hpos, tick]
  | trail bits state all dout =>
    have hs : s.state = .fin := state.resolve_right hstate
    by_cases hpos : s.sclkPosedge = true
    · left
      simp [budget, edge, hs, hpos]
    · right
      simp [budget, edge, gate, hs, hpos, tick]

end Spi

/-! ## Runs -/

namespace SpiWatch

variable {s : SpiWatch w m k} {i : WbSpiIn}

/-- A run of `wb_spi_master`. -/
def run (s : SpiWatch w m k) (is : Nat → WbSpiIn) : Nat → SpiWatch w m k := atCycle step s is

section BitClock

variable (s) (is : Nat → WbSpiIn)

theorem run_sclkCtr (t n : Nat) : (s.run is (t + n)).core.spi.sclkCtr =
    (s.run is t).core.spi.sclkCtr + BitVec.ofNat (m + 1) n := by
  induction n with
  | zero => exact (BitVec.add_zero _).symm
  | succ n ih =>
    show ((s.run is (t + n)).core.spi.edge _).sclkCtr = _
    rw [Spi.edge_free.1, ih, BitVec.ofNat_add, BitVec.add_assoc]
    rfl

/-- The counter of the bit clock comes to every value again and again. -/
theorem run_reaches (v : BitVec (m + 1)) (t : Nat) :
    ∃ t', t ≤ t' ∧ (s.run is t').core.spi.sclkCtr = v := by
  refine ⟨t + (v - (s.run is t).core.spi.sclkCtr).toNat, Nat.le_add_right _ _, ?_⟩
  rw [run_sclkCtr, BitVec.ofNat_toNat, BitVec.setWidth_eq, BitVec.add_comm, BitVec.sub_add_cancel]

/-- In the cycle after, the registers of the bit clock are known. -/
theorem run_after (v : BitVec (m + 1)) (t : Nat) :
    ∃ t', t ≤ t' ∧ (s.run is t').core.spi.sclkInt = (v + 1).getLsbD m ∧
      (s.run is t').core.spi.sclkIntR = v.getLsbD m := by
  obtain ⟨t', ht, hv⟩ := run_reaches s is v t
  have hfree := Spi.edge_free (s := (s.run is t').core.spi) (i := (s.run is t').core.toSpi (is t'))
  rw [Spi.sclkInt, hv] at hfree
  exact ⟨t' + 1, by omega, congrArg (BitVec.getLsbD · m) hfree.1, hfree.2⟩

theorem run_posedge (t : Nat) : ∃ t', t ≤ t' ∧ (s.run is t').core.spi.sclkPosedge = true := by
  obtain ⟨t', ht, hint, hintR⟩ := run_after s is (BitVec.ofNat (m + 1) (2 ^ m - 1)) t
  refine ⟨t', ht, ?_⟩
  have hbelow : (2 ^ m - 1).testBit m = false :=
    Nat.testBit_lt_two_pow (Nat.sub_lt (Nat.two_pow_pos m) Nat.one_pos)
  have hsum : BitVec.ofNat (m + 1) (2 ^ m - 1) + 1 = BitVec.ofNat (m + 1) (2 ^ m) := by
    rw [show (1 : BitVec (m + 1)) = BitVec.ofNat (m + 1) 1 from rfl, ← BitVec.ofNat_add,
      Nat.sub_add_cancel (Nat.two_pow_pos m)]
  rw [hsum, BitVec.getLsbD_ofNat, Nat.testBit_two_pow_self, decide_eq_true (Nat.lt_succ_self m)]
    at hint
  rw [BitVec.getLsbD_ofNat, hbelow, Bool.and_false] at hintR
  rw [Spi.sclkPosedge, hint, hintR]
  rfl

theorem run_negedge (t : Nat) : ∃ t', t ≤ t' ∧ (s.run is t').core.spi.sclkNegedge = true := by
  obtain ⟨t', ht, hint, hintR⟩ := run_after s is (BitVec.allOnes (m + 1)) t
  refine ⟨t', ht, ?_⟩
  have hsum : BitVec.allOnes (m + 1) + 1 = 0 := by
    rw [← BitVec.neg_one_eq_allOnes]
    exact BitVec.add_left_neg 1
  rw [hsum] at hint
  rw [BitVec.getLsbD_allOnes, decide_eq_true (Nat.lt_succ_self m)] at hintR
  rw [Spi.sclkNegedge, hint, hintR]
  simp

theorem run_gate (x : State) (t : Nat) :
    ∃ t', t ≤ t' ∧ Spi.gate x (s.run is t').core.spi = true := by
  cases x
  case waitCs => exact run_negedge s is t
  case wait => exact run_negedge s is t
  case clkRise => exact run_negedge s is t
  all_goals exact run_posedge s is t

end BitClock

/-- How much a command has to wait for. -/
def budget (s : SpiWatch w m k) : Nat := if s.core.waitForSpi then s.core.spi.budget else 0

theorem budget_of_wait (h : s.core.waitForSpi = true) : s.budget = s.core.spi.budget := by
  rw [budget, if_pos h]

theorem budget_of_not_wait (h : s.core.waitForSpi = false) : s.budget = 0 := by
  rw [budget, if_neg (ne_true_of_eq_false h)]

/-- A pending command gets on, or waits for an edge of the bit clock. -/
theorem At.progress (hw : w < 32) {c : BitVec 32} {done pending : List (Command w k × List Bool)}
    (h : At s c done pending) (hcare : s.Careful i) (hbudget : s.budget ≠ 0) :
    (s.step i).budget < s.budget ∨ Spi.gate s.core.spi.state s.core.spi = false ∧
      (s.step i).budget = s.budget ∧ (s.step i).core.spi.state = s.core.spi.state := by
  cases h.phase with
  | quiet wait => exact absurd (budget_of_not_wait wait) hbudget
  | acking hidden wait => exact absurd (budget_of_not_wait wait) hbudget
  | triggered q hidden wait ack trigger idle fresh cs csIdle din =>
    left
    have hspi := edge_of_trigger (j := s.core.toSpi i) idle trigger fresh
    have hle : (s.step i).budget ≤ (s.core.spi.edge (s.core.toSpi i)).budget := by
      by_cases hnext : (s.step i).core.waitForSpi = true
      · exact Nat.le_of_eq (budget_of_wait hnext)
      · rw [budget_of_not_wait (eq_false_of_ne_true hnext)]
        exact Nat.zero_le _
    rw [hspi] at hle
    have hbudget : s.core.spi.budget = 2 * w + 7 := by rw [Spi.budget, idle]
    rw [budget_of_wait wait, hbudget]
    exact Nat.lt_of_le_of_lt hle (Nat.lt_succ_self _)
  | serving q bits hidden wait ack serving =>
    obtain ⟨-, -, hnwait, -, -⟩ := wbEdge_of_not_issues hcare.noReset (hidden.not_issues hcare)
    by_cases hstate : s.core.spi.state = .awaitAck
    · left
      have htake : s.core.takeDout.waitForSpi = false := by
        rw [WbSpi.takeDout, wait, Spi.dvld, hstate]
        rfl
      rw [budget_of_not_wait (hnwait.trans htake), budget_of_wait wait]
      exact Spi.budget_pos _
    · have hnot : (s.core.waitForSpi && s.core.spi.dvld) = false := by
        rw [Spi.dvld, beq_eq_false_iff_ne.mpr hstate, Bool.and_false]
      rw [takeDout_of_not hnot] at hnwait
      rw [budget_of_wait wait, budget_of_wait (s := s.step i) (hnwait.trans wait)]
      exact serving.stage.progress hw hstate

/-! ## All commands -/

/-- Nothing is pending, and nothing has been seen. -/
structure Resting (s : SpiWatch w m k) : Prop where
  wait : s.core.waitForSpi = false
  ack : s.core.spiAck = false
  trigger : s.core.spiTrigger = false
  idle : s.core.spi.state = .idle
  commands : s.commands = []
  edges : s.edges = []
  finished : s.finished = []

theorem Resting.start (h : Resting s) : At s s.core.spiEventCount [] [] where
  phase := .quiet h.wait h.ack h.trigger h.idle (fun _ hp => nomatch hp)
  commands := h.commands
  edges := h.edges
  full := fun _ hp => nomatch hp
  finished := h.finished
  count := (BitVec.add_zero _).symm
  dout := fun _ hp => nomatch hp

variable {is : Nat → WbSpiIn}

/-- In every cycle what has been seen is accounted for. -/
theorem Resting.run_at (hw : w < 32) (h : Resting s) (hcare : ∀ t, (s.run is t).Careful (is t))
    (t : Nat) : ∃ done pending, At (s.run is t) s.core.spiEventCount done pending := by
  induction t with
  | zero => exact ⟨[], [], h.start⟩
  | succ t ih =>
    obtain ⟨done, pending, hat⟩ := ih
    exact hat.step hw (hcare t)

/-- No command stays pending for ever. -/
theorem Resting.run_clears (hw : w < 32) (h : Resting s) (hcare : ∀ t, (s.run is t).Careful (is t))
    (t : Nat) : ∃ t', t ≤ t' ∧ (s.run is t').core.waitForSpi = false := by
  have hless : ∀ t, (s.run is t).budget ≠ 0 →
      ∃ t', t < t' ∧ (s.run is t').budget < (s.run is t).budget := by
    intro t hbudget
    have hprogress : ∀ t', (s.run is t').budget ≠ 0 → _ := fun t' hb =>
      have ⟨done, pending, hat⟩ := h.run_at hw hcare t'
      hat.progress hw (hcare t') hb
    -- the command waits until the bit clock has the edge for the state it is in
    have stay : ∀ t', ((s.run is t').budget = (s.run is t).budget ∧
          (s.run is t').core.spi.state = (s.run is t).core.spi.state) →
        ¬((s.run is (t' + 1)).budget < (s.run is t).budget ∨
          Spi.gate (s.run is t).core.spi.state (s.run is t').core.spi = true) →
        ((s.run is (t' + 1)).budget = (s.run is t).budget ∧
          (s.run is (t' + 1)).core.spi.state = (s.run is t).core.spi.state) := by
      rintro t' ⟨hb, hs⟩ hgo
      rcases hprogress t' (by rw [hb]; exact hbudget) with hlt | ⟨-, hb', hs'⟩
      · rw [hb] at hlt
        exact absurd (.inl hlt) hgo
      · exact ⟨hb'.trans hb, hs'.trans hs⟩
    refine waits_until stay ?_ ⟨rfl, rfl⟩ ?_
    · rintro t' ⟨hb, hs⟩ hgo
      rcases hprogress t' (by rw [hb]; exact hbudget) with hlt | ⟨hgate, -, -⟩
      · rw [hb] at hlt
        exact hlt
      · rcases hgo with hlt | hgo
        · exact hlt
        · rw [hs, hgo] at hgate
          cases hgate
    · obtain ⟨t', ht, hgate⟩ := run_gate s is (s.run is t).core.spi.state t
      exact ⟨t', ht, .inr hgate⟩
  obtain ⟨t', ht, hzero⟩ := reaches_zero (fun t => (s.run is t).budget) hless t
  refine ⟨t', ht, ?_⟩
  rw [← Bool.not_eq_true]
  intro hwait
  have hpos := Spi.budget_pos (s.run is t').core.spi
  rw [← budget_of_wait hwait] at hpos
  exact absurd hzero (Nat.ne_of_gt hpos)

/-- What has been seen is one transfer for each command: the commands that are done, with the bits
sampled for them, and the pending one. -/
structure Accounted (s : SpiWatch w m k) (c : BitVec 32)
    (done pending : List (Command w k × List Bool)) : Prop where
  commands : s.commands = (done ++ pending).map Prod.fst
  edges : s.edges = (done ++ pending).flatMap fun p => transfer p.1 p.2
  full : ∀ p ∈ done, p.2.length = w + 1
  one : pending.length ≤ 1
  partly : ∀ p ∈ pending, p.2.length ≤ w + 1
  /-- the pending bit -/
  cleared : s.core.waitForSpi = false ↔ pending = []
  /-- whenever the pending bit has been cleared -/
  finished : s.finished = done.mapIdx fun n p => (word p.2, c + BitVec.ofNat 32 (n + 1))
  count : s.core.spiEventCount = c + BitVec.ofNat 32 done.length
  dout : ∀ p ∈ done.getLast?, s.core.spiDoutReg.setWidth (w + 1) = word p.2
  rest : pending = [] → ∀ p ∈ done.getLast?, s.core.spi.cs = p.1.csIdle

theorem At.accounted {c : BitVec 32} {done pending : List (Command w k × List Bool)}
    (h : At s c done pending) : Accounted s c done pending := by
  refine ⟨h.commands, h.edges, h.full, ?_, ?_, ?_, h.finished, h.count, h.dout, ?_⟩
  · cases h.phase <;> simp
  · cases h.phase with
    | quiet => simp
    | triggered => simp
    | acking => simp
    | serving q bits hidden wait ack serving =>
      intro p hp
      rw [List.mem_singleton.mp hp]
      cases serving.stage with
      | lead => exact Nat.zero_le _
      | high bits state some most => exact most
      | low bits state most => exact Nat.le_succ_of_le most
      | trail bits state all => exact Nat.le_of_eq all
  · cases h.phase with
    | quiet wait => simp [wait]
    | triggered q hidden wait => simp [wait]
    | serving q bits hidden wait => simp [wait]
    | acking hidden wait => simp [wait]
  · intro hnil p hp
    cases h.phase with
    | quiet wait ack trigger idle rest =>
      rw [Spi.cs, idle]
      exact rest p hp
    | acking hidden wait ack state rest =>
      rw [Spi.cs, state]
      exact rest p hp
    | triggered => cases hnil
    | serving => cases hnil

/-- If each command is issued only after the pending bit has been seen clear, then each gives
exactly one transfer, after which the pending bit clears. -/
theorem Resting.run_transfers (hw : w < 32) (h : Resting s)
    (hcare : ∀ t, (s.run is t).Careful (is t)) :
    (∀ t, ∃ done pending, Accounted (s.run is t) s.core.spiEventCount done pending) ∧
      ∀ t, ∃ t', t ≤ t' ∧ (s.run is t').core.waitForSpi = false := by
  refine ⟨fun t => ?_, h.run_clears hw hcare⟩
  obtain ⟨done, pending, hat⟩ := h.run_at hw hcare t
  exact ⟨done, pending, hat.accounted⟩

/-- A core of four bits that has just started. -/
def started : SpiWatch 3 0 2 where
  core :=
    ⟨false, 0b1010, 0, 0, 0, false, false, false, 0, 0, ⟨.idle, 0, false, false, 0, 0, 0, 0, 0⟩⟩
  reading := false
  shown := false
  commands := []
  edges := []
  finished := []

/-- A read of the command register, a command with chip selects `01`, and `10` when idle, and both
again when the first command is no longer pending. -/
def twoCommands (t : Nat) : WbSpiIn where
  wbRst := false
  wbStb := decide (t ∈ [0, 3, 40, 43])
  wbCyc := decide (t ∈ [0, 3, 40, 43])
  wbWe := decide (t ∈ [3, 43])
  wbAdr := 0
  wbDat := 0x0201
  wbSel := 0xf
  miso := t % 3 == 0

theorem run_transfers_twoCommands :
    (∀ t, ∃ done pending, Accounted (started.run twoCommands t) 0 done pending) ∧
      ∀ t, ∃ t', t ≤ t' ∧ (started.run twoCommands t').core.waitForSpi = false := by
  refine Resting.run_transfers (by decide) ⟨rfl, rfl, rfl, rfl, rfl, rfl, rfl⟩ fun t => ⟨rfl, ?_⟩
  intro hissues
  by_cases ht : t = 3 ∨ t = 43
  · rcases ht with rfl | rfl
    · decide +kernel
    · decide +kernel
  · simp [issues, twoCommands, not_or.mp ht] at hissues

/-- The commands have been sent bit by bit. -/
example : (started.run twoCommands 80).commands = [⟨1, 2, 0b1010⟩, ⟨1, 2, 0b1010⟩] ∧
    (started.run twoCommands 80).edges.map (·.mosi)
      = [true, false, true, false, true, false, true, false] ∧
    (started.run twoCommands 80).core.waitForSpi = false := by
  decide +kernel

end SpiWatch

end MlibDevel.SpiMaster
