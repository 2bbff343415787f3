import MlibDevel.Lib.Cycles
import MlibDevel.Lib.ValidReady
import Mathlib.Tactic.ByContra

/-!
# The AXI4-Lite slave (`axi4lite_slave_logic.vhd`)

One state machine serves the five channels of the master and the register bus behind it.

A run is a sequence of clock cycles after a reset.  The master is any that keeps the valid/ready
rule on its three channels.  `Sys` carries besides the registers what passes each interface: the
addresses and data beats accepted, the accesses made on the register bus, and the responses given.
-/

namespace MlibDevel.Axi4Lite

open Lib

namespace SlaveLogic

/-! ## The registers -/

/-- `fsm_enum` -/
inductive Fsm
  | idle
  | reading
  | readWait
  | writing
  | writeWait
  deriving DecidableEq, Repr

/-- The registers: the state, the outputs in `axi4lite_miso` and those in `ipb_mosi`. -/
structure Regs where
  fsm : Fsm
  arready : Bool
  awready : Bool
  wready : Bool
  rvalid : Bool
  rdata : BitVec 32
  bvalid : Bool
  addr : BitVec 32
  rreq : Bool
  wreq : Bool
  deriving DecidableEq, Repr

/-- `t_axi4lite_mosi` -/
structure Mosi where
  awaddr : BitVec 32
  awvalid : Bool
  wdata : BitVec 32
  wvalid : Bool
  araddr : BitVec 32
  arvalid : Bool
  rready : Bool
  bready : Bool
  deriving DecidableEq, Repr

/-- `t_ipb_miso` -/
structure IpbMiso where
  wack : Bool
  rdat : BitVec 32
  rack : Bool
  deriving DecidableEq, Repr

/-- A rising edge of the clock. -/
def Regs.edge (s : Regs) (mosi : Mosi) (ipb : IpbMiso) : Regs :=
  match s.fsm with
  | .idle =>
    if mosi.arvalid then
      { s with
        arready := false, awready := false, addr := mosi.araddr, rreq := true, fsm := .reading }
    else if mosi.awvalid then
      { s with arready := false, awready := false, addr := mosi.awaddr, fsm := .writing }
    else { s with arready := true, awready := true }
  | .reading =>
    if ipb.rack then { s with rvalid := true, rdata := ipb.rdat, rreq := false, fsm := .readWait }
    else s
  | .readWait =>
    if mosi.rready then
      { s with rvalid := false, rdata := 0, arready := true, awready := true, fsm := .idle }
    else s
  | .writing =>
    if ipb.wack && s.wreq then
      { s with wreq := false, bvalid := true, wready := true, fsm := .writeWait }
    else { s with wreq := mosi.wvalid }
  | .writeWait =>
    if mosi.bready then
      { s with bvalid := false, wready := false, arready := true, awready := true, fsm := .idle }
    else s

/-- `axi4lite_aresetn = '0'` -/
def Regs.reset (s : Regs) : Regs :=
  { s with
    arready := false, awready := false, rvalid := false, wready := false, rdata := 0,
    bvalid := false, rreq := false, wreq := false, fsm := .idle }

/-! ## Runs -/

/-- What the master and the register bus do in a cycle: what the channels of the master want to send
next, whether it takes responses, and how the register bus answers. -/
structure Choice where
  ar : Option (BitVec 32)
  aw : Option (BitVec 32)
  w : Option (BitVec 32)
  rready : Bool
  bready : Bool
  ipb : IpbMiso
  deriving DecidableEq, Repr

/-- The slave, what its master holds valid, and what has passed the interfaces. -/
structure Sys where
  regs : Regs
  arHeld : Option (BitVec 32)
  awHeld : Option (BitVec 32)
  wHeld : Option (BitVec 32)
  /-- the read addresses accepted -/
  arAccepted : List (BitVec 32)
  /-- the addresses and the data of the `rreq` accesses -/
  reads : List (BitVec 32 × BitVec 32)
  /-- the data of the read responses given -/
  rGiven : List (BitVec 32)
  /-- the write addresses accepted -/
  awAccepted : List (BitVec 32)
  /-- the data beats accepted -/
  wAccepted : List (BitVec 32)
  /-- the addresses and the data of the `wreq` accesses -/
  writes : List (BitVec 32 × BitVec 32)
  /-- the number of write responses given -/
  bGiven : Nat
  deriving DecidableEq, Repr

/-- The signals of the master. -/
def Sys.mosi (s : Sys) (c : Choice) : Mosi where
  awaddr := (offer s.awHeld c.aw).getD 0
  awvalid := (offer s.awHeld c.aw).isSome
  wdata := (offer s.wHeld c.w).getD 0
  wvalid := (offer s.wHeld c.w).isSome
  araddr := (offer s.arHeld c.ar).getD 0
  arvalid := (offer s.arHeld c.ar).isSome
  rready := c.rready
  bready := c.bready

/-- A clock cycle. -/
def Sys.step (s : Sys) (c : Choice) : Sys where
  regs := s.regs.edge (s.mosi c) c.ipb
  arHeld := keep (offer s.arHeld c.ar) s.regs.arready
  awHeld := keep (offer s.awHeld c.aw) s.regs.awready
  wHeld := keep (offer s.wHeld c.w) s.regs.wready
  arAccepted := s.arAccepted ++ taken (offer s.arHeld c.ar) s.regs.arready
  reads := s.reads ++ if s.regs.rreq && c.ipb.rack then [(s.regs.addr, c.ipb.rdat)] else []
  rGiven := s.rGiven ++ if s.regs.rvalid && c.rready then [s.regs.rdata] else []
  awAccepted := s.awAccepted ++ taken (offer s.awHeld c.aw) s.regs.awready
  wAccepted := s.wAccepted ++ taken (offer s.wHeld c.w) s.regs.wready
  writes := s.writes ++
    -- `wdat` is the data of the master, not a register
    if s.regs.wreq && c.ipb.wack then [(s.regs.addr, (s.mosi c).wdata)] else []
  bGiven := s.bGiven + if s.regs.bvalid && c.bready then 1 else 0

/-- The slave after a reset, from whatever the registers held before. -/
def Sys.start (regs : Regs) : Sys := ⟨regs.reset, none, none, none, [], [], [], [], [], [], 0⟩

/-- The slave in cycle `t`. -/
def run (regs : Regs) (choice : Nat → Choice) : Nat → Sys := atCycle Sys.step (.start regs) choice

/-- Every response of the surroundings comes at some time. -/
structure Answering (run : Nat → Sys) (choice : Nat → Choice) : Prop where
  rack : ∀ t, (run t).regs.rreq = true → ∃ t', t ≤ t' ∧ (choice t').ipb.rack = true
  rready : ∀ t, (run t).regs.rvalid = true → ∃ t', t ≤ t' ∧ (choice t').rready = true
  bready : ∀ t, (run t).regs.bvalid = true → ∃ t', t ≤ t' ∧ (choice t').bready = true

/--
For each write address accepted the master sends a data beat at some time, and the register bus
acknowledges each write at some time.
-/
structure Supplying (run : Nat → Sys) (choice : Nat → Choice) : Prop where
  wvalid : ∀ t, (run t).wAccepted.length < (run t).awAccepted.length →
    ∃ t', t ≤ t' ∧ ((run t').mosi (choice t')).wvalid = true
  wack : ∀ t, (run t).regs.wreq = true → ∃ t', t ≤ t' ∧ (choice t').ipb.wack = true

/--
Each request is served once.  The accesses are those requested, in order, the responses those of the
accesses, and none of them comes before its request.  What is accepted is accessed and answered in
the end: a read if the surroundings answer, a write if its data comes besides.
-/
structure Serves (run : Nat → Sys) (choice : Nat → Choice) : Prop where
  read : ∀ t, (run t).reads.map Prod.fst <+: (run t).arAccepted
  readResponse : ∀ t, (run t).rGiven <+: (run t).reads.map Prod.snd
  readDone : Answering run choice → ∀ t, ∃ t', t ≤ t' ∧
    (run t').reads.map Prod.fst = (run t).arAccepted ∧ (run t').rGiven = (run t').reads.map Prod.snd
  /-- the data of a pair may still be on its way while it is written -/
  write : ∀ t, (run t).writes.map Prod.fst <+: (run t).awAccepted ∧
    (run t).wAccepted <+: (run t).writes.map Prod.snd ∧
    (run t).writes.map Prod.snd <+: (run t).wAccepted ++ (run t).wHeld.toList
  writeResponse : ∀ t, (run t).bGiven ≤ (run t).wAccepted.length
  writeDone : Answering run choice → Supplying run choice → ∀ t, ∃ t', t ≤ t' ∧
    (run t').writes.map Prod.fst = (run t).awAccepted ∧
    (run t').wAccepted = (run t').writes.map Prod.snd ∧ (run t').bGiven = (run t').writes.length
  /-- what has been written is answered, also if no other data comes -/
  writeAnswered : Answering run choice → ∀ t, ∃ t', t ≤ t' ∧
    (run t').writes = (run t).writes ∧ (run t').wAccepted = (run t).writes.map Prod.snd ∧
    (run t').bGiven = (run t).writes.length

/--
What the slave needs of its master: no read and write at once while it is idle, no request at the
first edge after the reset, and no further data beat while a write response is pending.
-/
structure Orderly (s : Sys) (c : Choice) : Prop where
  single : s.regs.fsm = .idle → ¬((s.mosi c).arvalid = true ∧ (s.mosi c).awvalid = true)
  ready : s.regs.fsm = .idle → s.regs.arready = false →
    (s.mosi c).arvalid = false ∧ (s.mosi c).awvalid = false
  beat : s.regs.fsm = .writeWait → s.wHeld = none → c.w = none

instance (s : Sys) (c : Choice) : Decidable (Orderly s c) :=
  decidable_of_iff
    ((s.regs.fsm = .idle → ¬((s.mosi c).arvalid = true ∧ (s.mosi c).awvalid = true)) ∧
      (s.regs.fsm = .idle → s.regs.arready = false →
        (s.mosi c).arvalid = false ∧ (s.mosi c).awvalid = false) ∧
      (s.regs.fsm = .writeWait → s.wHeld = none → c.w = none))
    ⟨fun h => ⟨h.1, h.2.1, h.2.2⟩, fun h => ⟨h.single, h.ready, h.beat⟩⟩

/-! ## The registers follow the state machine -/

/-- The outputs that a state determines. -/
structure Moore (r : Regs) : Prop where
  awready : r.awready = r.arready
  arready : r.arready = true → r.fsm = .idle
  wready : r.wready = decide (r.fsm = .writeWait)
  rvalid : r.rvalid = decide (r.fsm = .readWait)
  bvalid : r.bvalid = decide (r.fsm = .writeWait)
  rreq : r.rreq = decide (r.fsm = .reading)
  wreq : r.wreq = true → r.fsm = .writing

theorem reset_moore (r : Regs) : Moore r.reset := by
  unfold Regs.reset
  constructor <;> simp

theorem Moore.edge {r : Regs} (h : Moore r) (mosi : Mosi) (ipb : IpbMiso) :
    Moore (r.edge mosi ipb) := by
  obtain ⟨haw, har, hw, hr, hb, hrr, hwr⟩ := h
  unfold Regs.edge
  cases hs : r.fsm with
  | idle =>
    cases mosi.arvalid <;> cases mosi.awvalid <;> constructor <;> simp_all
  | reading =>
    cases ipb.rack <;> constructor <;> simp_all
  | readWait =>
    cases mosi.rready <;> constructor <;> simp_all
  | writing =>
    cases ipb.wack <;> cases r.wreq <;> constructor <;> simp_all
  | writeWait =>
    cases mosi.bready <;> constructor <;> simp_all

/-! ## What is on its way -/

/--
What has been accepted and not been passed on yet: a read address while it is read, its data while
the response waits, a write address until it is written, its data until the master may drop it.
-/
structure Inv (s : Sys) : Prop where
  moore : Moore s.regs
  read : s.arAccepted
    = s.reads.map Prod.fst ++ if s.regs.fsm = .reading then [s.regs.addr] else []
  readResponse : s.reads.map Prod.snd
    = s.rGiven ++ if s.regs.fsm = .readWait then [s.regs.rdata] else []
  write : s.awAccepted
    = s.writes.map Prod.fst ++ if s.regs.fsm = .writing then [s.regs.addr] else []
  beat : s.writes.map Prod.snd
    = s.wAccepted ++ if s.regs.fsm = .writeWait then s.wHeld.toList else []
  writeResponse : s.writes.length = s.bGiven + if s.regs.fsm = .writeWait then 1 else 0
  held : s.regs.wreq = true → s.wHeld.isSome

theorem start_inv (r : Regs) : Inv (.start r) where
  moore := reset_moore r
  read := rfl
  readResponse := rfl
  write := rfl
  beat := rfl
  writeResponse := rfl
  held := by
    intro hw
    cases hw

section Steps

variable {s : Sys} {c : Choice}

/-- Outside `idle` no address is accepted. -/
theorem Moore.notReady {r : Regs} (h : Moore r) (hs : r.fsm ≠ .idle) :
    r.arready = false ∧ r.awready = false := by
  have har : r.arready = false := by
    by_contra hc
    exact hs (h.arready (by simpa using hc))
  exact ⟨har, by rw [h.awready, har]⟩

/-- Outside `writing` there is no request to write. -/
theorem Moore.notWriting {r : Regs} (h : Moore r) (hs : r.fsm ≠ .writing) : r.wreq = false := by
  by_contra hc
  exact hs (h.wreq (by simpa using hc))

theorem Inv.idle (h : Inv s) (hs : s.regs.fsm = .idle) (hok : Orderly s c) : Inv (s.step c) := by
  have hmoore := h.moore.edge (s.mosi c) c.ipb
  obtain ⟨hm, hr, hrr, hw, hb, hwr, -⟩ := h
  have hwreq := hm.notWriting (by rw [hs]; simp)
  have hwready := hm.wready
  have hrvalid := hm.rvalid
  have hbvalid := hm.bvalid
  have hrreq := hm.rreq
  simp only [hs, reduceCtorEq, if_false, decide_false, List.append_nil, Nat.add_zero]
    at hr hrr hw hb hwr hwready hrvalid hbvalid hrreq
  cases har : offer s.arHeld c.ar with
  | some x =>
    -- a read address, which is accepted; no write address is offered
    have hready : s.regs.arready = true := by
      by_contra hc
      have hno := (hok.ready hs (by simpa using hc)).1
      simp [Sys.mosi, har] at hno
    have haw : offer s.awHeld c.aw = none := by
      by_contra hc
      refine hok.single hs ⟨?_, ?_⟩
      · simp [Sys.mosi, har]
      · simpa [Sys.mosi, Option.isSome_iff_ne_none] using hc
    constructor <;> simp_all [Sys.step, Sys.mosi, Regs.edge]
  | none =>
    cases haw : offer s.awHeld c.aw with
    | some x =>
      have hready : s.regs.awready = true := by
        rw [hm.awready]
        by_contra hc
        have hno := (hok.ready hs (by simpa using hc)).2
        simp [Sys.mosi, haw] at hno
      constructor <;> simp_all [Sys.step, Sys.mosi, Regs.edge]
    | none =>
      constructor <;> simp_all [Sys.step, Sys.mosi, Regs.edge]

theorem Inv.reading (h : Inv s) (hs : s.regs.fsm = .reading) : Inv (s.step c) := by
  have hmoore := h.moore.edge (s.mosi c) c.ipb
  obtain ⟨hm, hr, hrr, hw, hb, hwr, -⟩ := h
  obtain ⟨har, haw⟩ := hm.notReady (by rw [hs]; simp)
  have hwreq := hm.notWriting (by rw [hs]; simp)
  have hwready := hm.wready
  have hrvalid := hm.rvalid
  have hbvalid := hm.bvalid
  have hrreq := hm.rreq
  cases hack : c.ipb.rack with
  | true => constructor <;> simp_all [Sys.step, Regs.edge]
  | false => constructor <;> simp_all [Sys.step, Regs.edge]

theorem Inv.readWait (h : Inv s) (hs : s.regs.fsm = .readWait) : Inv (s.step c) := by
  have hmoore := h.moore.edge (s.mosi c) c.ipb
  obtain ⟨hm, hr, hrr, hw, hb, hwr, -⟩ := h
  obtain ⟨har, haw⟩ := hm.notReady (by rw [hs]; simp)
  have hwreq := hm.notWriting (by rw [hs]; simp)
  have hwready := hm.wready
  have hrvalid := hm.rvalid
  have hbvalid := hm.bvalid
  have hrreq := hm.rreq
  cases hready : c.rready with
  | true => constructor <;> simp_all [Sys.step, Sys.mosi, Regs.edge]
  | false => constructor <;> simp_all [Sys.step, Sys.mosi, Regs.edge]

/-- The data written is the data held, and the master holds it one cycle longer. -/
theorem Inv.writing (h : Inv s) (hs : s.regs.fsm = .writing) : Inv (s.step c) := by
  have hmoore := h.moore.edge (s.mosi c) c.ipb
  obtain ⟨hm, hr, hrr, hw, hb, hwr, hheld⟩ := h
  obtain ⟨har, haw⟩ := hm.notReady (by rw [hs]; simp)
  have hwready := hm.wready
  have hrvalid := hm.rvalid
  have hbvalid := hm.bvalid
  have hrreq := hm.rreq
  cases hwreq : s.regs.wreq with
  | false => constructor <;> simp_all [Sys.step, Sys.mosi, Regs.edge]
  | true =>
    obtain ⟨d, hd⟩ := Option.isSome_iff_exists.mp (hheld hwreq)
    cases hwack : c.ipb.wack with
    | true => constructor <;> simp_all [Sys.step, Sys.mosi, Regs.edge]
    | false => constructor <;> simp_all [Sys.step, Sys.mosi, Regs.edge]

/-- The data held is taken, and no other. -/
theorem Inv.writeWait (h : Inv s) (hs : s.regs.fsm = .writeWait) (hok : Orderly s c) :
    Inv (s.step c) := by
  have hmoore := h.moore.edge (s.mosi c) c.ipb
  obtain ⟨hm, hr, hrr, hw, hb, hwr, -⟩ := h
  obtain ⟨har, haw⟩ := hm.notReady (by rw [hs]; simp)
  have hwreq := hm.notWriting (by rw [hs]; simp)
  have hwready := hm.wready
  have hrvalid := hm.rvalid
  have hbvalid := hm.bvalid
  have hrreq := hm.rreq
  have hbeat : offer s.wHeld c.w = s.wHeld := by
    cases hd : s.wHeld with
    | none => exact hok.beat hs hd
    | some d => rfl
  cases hready : c.bready with
  | true => constructor <;> simp_all [Sys.step, Sys.mosi, Regs.edge]
  | false => constructor <;> simp_all [Sys.step, Sys.mosi, Regs.edge]

theorem Inv.step (h : Inv s) (hok : Orderly s c) : Inv (s.step c) := by
  cases hs : s.regs.fsm with
  | idle => exact h.idle hs hok
  | reading => exact h.reading hs
  | readWait => exact h.readWait hs
  | writing => exact h.writing hs
  | writeWait => exact h.writeWait hs hok

/-- A read waits for the register bus. -/
theorem Moore.step_reading (h : Moore s.regs) (hs : s.regs.fsm = .reading) :
    (s.step c).arAccepted = s.arAccepted ∧
      (s.step c).regs.fsm = if c.ipb.rack then .readWait else .reading := by
  have har := (h.notReady (by rw [hs]; simp)).1
  unfold Sys.step Regs.edge
  cases c.ipb.rack <;> simp [hs, har]

/-- A read response waits for the master. -/
theorem Moore.step_readWait (h : Moore s.regs) (hs : s.regs.fsm = .readWait) :
    (s.step c).arAccepted = s.arAccepted ∧
      (s.step c).regs.fsm = if c.rready then .idle else .readWait := by
  have har := (h.notReady (by rw [hs]; simp)).1
  unfold Sys.step Sys.mosi Regs.edge
  cases c.rready <;> simp [hs, har]

/-- A write response waits for the master. -/
theorem Moore.step_writeWait (h : Moore s.regs) (hs : s.regs.fsm = .writeWait) :
    ((s.step c).writes = s.writes ∧ (s.step c).awAccepted = s.awAccepted) ∧
      (s.step c).regs.fsm = if c.bready then .idle else .writeWait := by
  have hwreq := h.notWriting (by rw [hs]; simp)
  have haw := (h.notReady (by rw [hs]; simp)).2
  unfold Sys.step Sys.mosi Regs.edge
  cases c.bready <;> simp [hs, hwreq, haw]

/-- A write waits for its data. -/
theorem Moore.step_writing (h : Moore s.regs) (hs : s.regs.fsm = .writing)
    (hwreq : s.regs.wreq = false) :
    (s.step c).awAccepted = s.awAccepted ∧ (s.step c).regs.fsm = .writing ∧
      (s.step c).regs.wreq = (s.mosi c).wvalid := by
  have haw := (h.notReady (by rw [hs]; simp)).2
  unfold Sys.step Regs.edge
  simp [hs, hwreq, haw]

/-- A write that has its data waits for the register bus. -/
theorem Inv.step_wreq (h : Inv s) (hs : s.regs.fsm = .writing) (hwreq : s.regs.wreq = true) :
    (s.step c).awAccepted = s.awAccepted ∧
      if c.ipb.wack then (s.step c).regs.fsm = .writeWait
      else (s.step c).regs.fsm = .writing ∧ (s.step c).regs.wreq = true := by
  have haw := (h.moore.notReady (by rw [hs]; simp)).2
  obtain ⟨d, hd⟩ := Option.isSome_iff_exists.mp (h.held hwreq)
  unfold Sys.step Sys.mosi Regs.edge
  cases c.ipb.wack <;> simp [hs, hwreq, haw, hd]

/-- While an address waits for its data, fewer data beats have been accepted than addresses. -/
theorem Inv.awaits (h : Inv s) (hs : s.regs.fsm = .writing) :
    s.wAccepted.length < s.awAccepted.length := by
  have hwrite := congrArg List.length h.write
  have hbeat := congrArg List.length h.beat
  rw [List.length_append, List.length_map, if_pos hs, List.length_singleton] at hwrite
  rw [if_neg (by rw [hs]; simp), List.append_nil, List.length_map] at hbeat
  omega

/-- Between reads, all of them are done. -/
theorem Inv.readsDone (h : Inv s) (hr : s.regs.fsm ≠ .reading) (hw : s.regs.fsm ≠ .readWait) :
    s.reads.map Prod.fst = s.arAccepted ∧ s.rGiven = s.reads.map Prod.snd := by
  have hread := h.read
  have hresponse := h.readResponse
  rw [if_neg hr, List.append_nil] at hread
  rw [if_neg hw, List.append_nil] at hresponse
  exact ⟨hread.symm, hresponse.symm⟩

/-- Between write responses, all of them are given. -/
theorem Inv.writesDone (h : Inv s) (hw : s.regs.fsm ≠ .writeWait) :
    s.wAccepted = s.writes.map Prod.snd ∧ s.bGiven = s.writes.length := by
  have hbeat := h.beat
  have hresponse := h.writeResponse
  rw [if_neg hw, List.append_nil] at hbeat
  rw [if_neg hw, Nat.add_zero] at hresponse
  exact ⟨hbeat.symm, hresponse.symm⟩

end Steps

/-! ## Whole runs -/

section Runs

variable {r : Nat → Sys} {choice : Nat → Choice}

/-- A state that waits for an event is left when it comes, and nothing is added before. -/
theorem leaves (hnext : ∀ t, r (t + 1) = (r t).step (choice t)) (hinv : ∀ t, Inv (r t)) {α : Type}
    {f f' : Fsm} {go : Choice → Bool} {log : Sys → α}
    (hstep : ∀ s c, Moore s.regs → s.regs.fsm = f →
      log (s.step c) = log s ∧ (s.step c).regs.fsm = if go c then f' else f)
    {t : Nat} (hs : (r t).regs.fsm = f) (hgo : ∃ t', t ≤ t' ∧ go (choice t') = true) :
    ∃ t', t < t' ∧ (r t').regs.fsm = f' ∧ log (r t') = log (r t) := by
  refine waits_until (P := fun u => (r u).regs.fsm = f ∧ log (r u) = log (r t)) ?_ ?_ ⟨hs, rfl⟩ hgo
  · intro u hu hno
    obtain ⟨hl, hfsm⟩ := hstep (r u) (choice u) (hinv u).moore hu.1
    rw [if_neg hno] at hfsm
    rw [hnext u]
    exact ⟨hfsm, by rw [hl, hu.2]⟩
  · intro u hu hyes
    obtain ⟨hl, hfsm⟩ := hstep (r u) (choice u) (hinv u).moore hu.1
    rw [if_pos hyes] at hfsm
    rw [hnext u]
    exact ⟨hfsm, by rw [hl, hu.2]⟩

/-- A read that has its data is answered. -/
theorem readWait_done (hnext : ∀ t, r (t + 1) = (r t).step (choice t)) (hinv : ∀ t, Inv (r t))
    (hans : Answering r choice) {t : Nat} (hs : (r t).regs.fsm = .readWait) :
    ∃ t', t < t' ∧ (r t').regs.fsm = .idle ∧ (r t').arAccepted = (r t).arAccepted := by
  refine leaves hnext hinv (fun _ _ h => h.step_readWait) hs (hans.rready t ?_)
  rw [(hinv t).moore.rvalid, hs]
  rfl

/-- A read gets its data. -/
theorem reading_done (hnext : ∀ t, r (t + 1) = (r t).step (choice t)) (hinv : ∀ t, Inv (r t))
    (hans : Answering r choice) {t : Nat} (hs : (r t).regs.fsm = .reading) :
    ∃ t', t < t' ∧ (r t').regs.fsm = .readWait ∧ (r t').arAccepted = (r t).arAccepted := by
  refine leaves hnext hinv (fun _ _ h => h.step_reading) hs (hans.rack t ?_)
  rw [(hinv t).moore.rreq, hs]
  rfl

/-- A write is answered. -/
theorem writeWait_done (hnext : ∀ t, r (t + 1) = (r t).step (choice t)) (hinv : ∀ t, Inv (r t))
    (hans : Answering r choice) {t : Nat} (hs : (r t).regs.fsm = .writeWait) :
    ∃ t', t < t' ∧ (r t').regs.fsm = .idle ∧ (r t').writes = (r t).writes ∧
      (r t').awAccepted = (r t).awAccepted := by
  have hlog : ∀ (s : Sys) (c : Choice), Moore s.regs → s.regs.fsm = .writeWait →
      ((s.step c).writes, (s.step c).awAccepted) = (s.writes, s.awAccepted) ∧
        (s.step c).regs.fsm = if c.bready then .idle else .writeWait := by
    intro s c h hs
    obtain ⟨⟨hwrites, haw⟩, hfsm⟩ := h.step_writeWait (c := c) hs
    exact ⟨by rw [hwrites, haw], hfsm⟩
  have hbready := hans.bready t (by rw [(hinv t).moore.bvalid, hs]; rfl)
  obtain ⟨t', ht, hi, hl⟩ := @leaves r choice hnext hinv _ .writeWait .idle Choice.bready
    (fun s => (s.writes, s.awAccepted)) hlog t hs hbready
  exact ⟨t', ht, hi, congrArg Prod.fst hl, congrArg Prod.snd hl⟩

/-- A write gets its data. -/
theorem writing_supplied (hnext : ∀ t, r (t + 1) = (r t).step (choice t)) (hinv : ∀ t, Inv (r t))
    (hsup : Supplying r choice) {t : Nat} (hs : (r t).regs.fsm = .writing) :
    ∃ t', t ≤ t' ∧ (r t').regs.fsm = .writing ∧ (r t').regs.wreq = true ∧
      (r t').awAccepted = (r t).awAccepted := by
  by_cases hw : (r t).regs.wreq = true
  · exact ⟨t, Nat.le_refl t, hs, hw, rfl⟩
  · rw [Bool.not_eq_true] at hw
    have hvalid := hsup.wvalid t ((hinv t).awaits hs)
    have hstep : ∀ u, ((r u).regs.fsm = .writing ∧ (r u).regs.wreq = false ∧
        (r u).awAccepted = (r t).awAccepted) → (r (u + 1)).regs.fsm = .writing ∧
          (r (u + 1)).regs.wreq = ((r u).mosi (choice u)).wvalid ∧
          (r (u + 1)).awAccepted = (r t).awAccepted := by
      intro u ⟨hsu, hwu, hl⟩
      obtain ⟨haw, hfsm, hwreq⟩ := (hinv u).moore.step_writing (c := choice u) hsu hwu
      rw [hnext u]
      exact ⟨hfsm, hwreq, by rw [haw, hl]⟩
    have hleave : ∃ t', t < t' ∧ (r t').regs.fsm = .writing ∧ (r t').regs.wreq = true ∧
        (r t').awAccepted = (r t).awAccepted := by
      refine waits_until
        (P := fun u => (r u).regs.fsm = .writing ∧ (r u).regs.wreq = false ∧
          (r u).awAccepted = (r t).awAccepted) ?_ ?_ ⟨hs, hw, rfl⟩ hvalid
      · intro u hu hno
        obtain ⟨hfsm, hwreq, hl⟩ := hstep u hu
        exact ⟨hfsm, by rw [hwreq, eq_false_of_ne_true hno], hl⟩
      · intro u hu hyes
        obtain ⟨hfsm, hwreq, hl⟩ := hstep u hu
        exact ⟨hfsm, by rw [hwreq, hyes], hl⟩
    obtain ⟨t', ht, hq⟩ := hleave
    exact ⟨t', Nat.le_of_lt ht, hq⟩

/-- A write that has its data is acknowledged. -/
theorem writing_done (hnext : ∀ t, r (t + 1) = (r t).step (choice t)) (hinv : ∀ t, Inv (r t))
    (hsup : Supplying r choice) {t : Nat} (hs : (r t).regs.fsm = .writing)
    (hw : (r t).regs.wreq = true) :
    ∃ t', t < t' ∧ (r t').regs.fsm = .writeWait ∧ (r t').awAccepted = (r t).awAccepted := by
  refine waits_until
    (P := fun u => (r u).regs.fsm = .writing ∧ (r u).regs.wreq = true ∧
      (r u).awAccepted = (r t).awAccepted) ?_ ?_ ⟨hs, hw, rfl⟩ (hsup.wack t hw)
  · intro u ⟨hsu, hwu, hl⟩ hno
    obtain ⟨haw, hwait⟩ := (hinv u).step_wreq (c := choice u) hsu hwu
    rw [if_neg hno] at hwait
    rw [hnext u]
    exact ⟨hwait.1, hwait.2, by rw [haw, hl]⟩
  · intro u ⟨hsu, hwu, hl⟩ hyes
    obtain ⟨haw, hwait⟩ := (hinv u).step_wreq (c := choice u) hsu hwu
    rw [if_pos hyes] at hwait
    rw [hnext u]
    exact ⟨hwait, by rw [haw, hl]⟩

theorem readDone_of_inv (hnext : ∀ t, r (t + 1) = (r t).step (choice t)) (hinv : ∀ t, Inv (r t))
    (hans : Answering r choice) (t : Nat) :
    ∃ t', t ≤ t' ∧ (r t').reads.map Prod.fst = (r t).arAccepted ∧
      (r t').rGiven = (r t').reads.map Prod.snd := by
  -- once the state machine is idle again, the reads accepted before are done
  have hidle : ∀ u, (r u).regs.fsm = .idle → (r u).arAccepted = (r t).arAccepted →
      (r u).reads.map Prod.fst = (r t).arAccepted ∧ (r u).rGiven = (r u).reads.map Prod.snd := by
    intro u hu hl
    rw [← hl]
    exact (hinv u).readsDone (by rw [hu]; simp) (by rw [hu]; simp)
  by_cases hr : (r t).regs.fsm = .reading
  · obtain ⟨u, hu, hs, hl⟩ := reading_done hnext hinv hans hr
    obtain ⟨v, hv, hi, hl'⟩ := readWait_done hnext hinv hans hs
    exact ⟨v, by omega, hidle v hi (by rw [hl', hl])⟩
  · by_cases hw : (r t).regs.fsm = .readWait
    · obtain ⟨v, hv, hi, hl⟩ := readWait_done hnext hinv hans hw
      exact ⟨v, by omega, hidle v hi hl⟩
    · exact ⟨t, Nat.le_refl t, (hinv t).readsDone hr hw⟩

theorem writeDone_of_inv (hnext : ∀ t, r (t + 1) = (r t).step (choice t)) (hinv : ∀ t, Inv (r t))
    (hans : Answering r choice) (hsup : Supplying r choice) (t : Nat) :
    ∃ t', t ≤ t' ∧ (r t').writes.map Prod.fst = (r t).awAccepted ∧
      (r t').wAccepted = (r t').writes.map Prod.snd ∧ (r t').bGiven = (r t').writes.length := by
  -- once the state machine is idle again, the writes accepted before are done
  have hend : ∀ u, (r u).regs.fsm ≠ .writing → (r u).regs.fsm ≠ .writeWait →
      (r u).awAccepted = (r t).awAccepted → (r u).writes.map Prod.fst = (r t).awAccepted ∧
        (r u).wAccepted = (r u).writes.map Prod.snd ∧ (r u).bGiven = (r u).writes.length := by
    intro u hwriting hwait hl
    have hwrite := (hinv u).write
    rw [if_neg hwriting, List.append_nil, hl] at hwrite
    exact ⟨hwrite.symm, (hinv u).writesDone hwait⟩
  have hanswer : ∀ u, t ≤ u → (r u).regs.fsm = .writeWait → (r u).awAccepted = (r t).awAccepted →
      ∃ t', t ≤ t' ∧ (r t').writes.map Prod.fst = (r t).awAccepted ∧
        (r t').wAccepted = (r t').writes.map Prod.snd ∧ (r t').bGiven = (r t').writes.length := by
    intro u hu hw hl
    obtain ⟨v, hv, hi, -, hl'⟩ := writeWait_done hnext hinv hans hw
    exact ⟨v, by omega, hend v (by rw [hi]; simp) (by rw [hi]; simp) (by rw [hl', hl])⟩
  by_cases hs : (r t).regs.fsm = .writing
  · obtain ⟨u, hu, hsu, hwu, hl⟩ := writing_supplied hnext hinv hsup hs
    obtain ⟨v, hv, hw, hl'⟩ := writing_done hnext hinv hsup hsu hwu
    exact hanswer v (by omega) hw (by rw [hl', hl])
  · by_cases hw : (r t).regs.fsm = .writeWait
    · exact hanswer t (Nat.le_refl t) hw rfl
    · exact ⟨t, Nat.le_refl t, hend t hs hw rfl⟩

theorem writeAnswered_of_inv (hnext : ∀ t, r (t + 1) = (r t).step (choice t))
    (hinv : ∀ t, Inv (r t)) (hans : Answering r choice) (t : Nat) :
    ∃ t', t ≤ t' ∧ (r t').writes = (r t).writes ∧ (r t').wAccepted = (r t).writes.map Prod.snd ∧
      (r t').bGiven = (r t).writes.length := by
  by_cases hw : (r t).regs.fsm = .writeWait
  · obtain ⟨u, hu, hi, hl, -⟩ := writeWait_done hnext hinv hans hw
    obtain ⟨hbeat, hresponse⟩ := (hinv u).writesDone (by rw [hi]; simp)
    exact ⟨u, by omega, hl, by rw [hbeat, hl], by rw [hresponse, hl]⟩
  · exact ⟨t, Nat.le_refl t, rfl, (hinv t).writesDone hw⟩

end Runs

/--
**An orderly master is served.**

Whatever the registers held before the reset, for every master that keeps the valid/ready rule and
is orderly in each cycle, and for every behaviour of the register bus: each accepted read address
gets one access and one response with its data, each accepted pair of write address and data one
access and one response, in order, and none of them before its request.
-/
theorem serves_of_orderly (regs : Regs) (choice : Nat → Choice)
    (hok : ∀ t, Orderly (run regs choice t) (choice t)) : Serves (run regs choice) choice := by
  have hnext : ∀ t, run regs choice (t + 1) = (run regs choice t).step (choice t) := fun _ => rfl
  have hinv : ∀ t, Inv (run regs choice t) :=
    atCycle_invariant_of (start_inv regs) (fun _ _ h hs => h.step hs) hok
  refine ⟨?_, ?_, readDone_of_inv hnext hinv, ?_, ?_, writeDone_of_inv hnext hinv,
    writeAnswered_of_inv hnext hinv⟩
  · intro t
    rw [(hinv t).read]
    exact List.prefix_append _ _
  · intro t
    rw [(hinv t).readResponse]
    exact List.prefix_append _ _
  · intro t
    rw [(hinv t).write, (hinv t).beat]
    refine ⟨List.prefix_append _ _, List.prefix_append _ _, ?_⟩
    split
    · exact List.prefix_refl _
    · rw [List.append_nil]
      exact List.prefix_append _ _
  · intro t
    have hlen := congrArg List.length (hinv t).beat
    have hb := (hinv t).writeResponse
    rw [List.length_map, List.length_append] at hlen
    by_cases hs : (run regs choice t).regs.fsm = .writeWait
    · rw [if_pos hs] at hlen hb
      have hone : (run regs choice t).wHeld.toList.length ≤ 1 := by
        cases (run regs choice t).wHeld <;> simp
      omega
    · rw [if_neg hs] at hlen hb
      simp only [List.length_nil] at hlen
      omega

/-- The registers before the reset. -/
def powerUp : Regs := ⟨.idle, false, false, false, false, 0, false, 0, false, false⟩

/-- A read of address 4, then a write of 9 to address 8. -/
def readWrite (t : Nat) : Choice :=
  ⟨if t = 1 then some 4 else none, if t = 5 then some 8 else none, if t = 5 then some 9 else none,
    true, true, ⟨true, 5, true⟩⟩

/-- When both are done, nothing goes on any more. -/
theorem readWrite_settled {t : Nat} (ht : 12 ≤ t) :
    readWrite t = ⟨none, none, none, true, true, ⟨true, 5, true⟩⟩ ∧
      run powerUp readWrite t = run powerUp readWrite 12 := by
  have hquiet : ∀ t', 12 ≤ t' →
      readWrite t' = ⟨none, none, none, true, true, ⟨true, 5, true⟩⟩ := by
    intro t' ht'
    rw [readWrite, if_neg (by omega), if_neg (by omega), if_neg (by omega)]
  refine ⟨hquiet t ht, ?_⟩
  refine atCycle_settled Sys.step (.start powerUp) (p := fun s : Sys => s) hquiet rfl ?_ t ht
  intro s hs
  rw [hs]
  decide +kernel

/-- All of their data comes, and all that they wait for. -/
theorem readWrite_answered : Answering (run powerUp readWrite) readWrite ∧
    Supplying (run powerUp readWrite) readWrite := by
  refine ⟨⟨fun t _ => ⟨t, Nat.le_refl t, rfl⟩, fun t _ => ⟨t, Nat.le_refl t, rfl⟩,
    fun t _ => ⟨t, Nat.le_refl t, rfl⟩⟩, ?_, fun t _ => ⟨t, Nat.le_refl t, rfl⟩⟩
  intro t hless
  by_cases ht : t < 12
  · have hcomes : ∀ u < 12, (run powerUp readWrite u).wAccepted.length
        < (run powerUp readWrite u).awAccepted.length →
        ∃ v < 12, u ≤ v ∧ ((run powerUp readWrite v).mosi (readWrite v)).wvalid = true := by
      decide +kernel
    obtain ⟨v, -, hv⟩ := hcomes t ht hless
    exact ⟨v, hv⟩
  · rw [(readWrite_settled (by omega)).2] at hless
    exact absurd hless (by decide +kernel)

/-- Both are served. -/
theorem serves_of_orderly_readWrite : Serves (run powerUp readWrite) readWrite ∧
    Answering (run powerUp readWrite) readWrite ∧ Supplying (run powerUp readWrite) readWrite := by
  refine ⟨serves_of_orderly powerUp readWrite ?_, readWrite_answered⟩
  intro t
  by_cases ht : t < 12
  · revert t
    decide +kernel
  · obtain ⟨hchoice, hrun⟩ := readWrite_settled (t := t) (by omega)
    rw [hchoice, hrun]
    decide +kernel

/-- A read and a write in the same cycle, and another write address later. -/
def readAndWrite (t : Nat) : Choice :=
  ⟨if t = 1 then some 4 else none, if t = 1 then some 8 else if t = 6 then some 12 else none,
    if t = 1 then some 9 else none, true, true, ⟨true, 5, true⟩⟩

/-- A read and a write at once: the write address is accepted and forgotten. -/
theorem serves_readAndWrite : ¬Serves (run powerUp readAndWrite) readAndWrite := by
  intro h
  have hwrite := (h.write 12).1
  revert hwrite
  decide +kernel

end SlaveLogic

end MlibDevel.Axi4Lite
