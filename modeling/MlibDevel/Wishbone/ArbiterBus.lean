import MlibDevel.Lib.Cycles
import MlibDevel.Wishbone.Arbiter
import Mathlib.Data.List.Range
import Mathlib.Data.List.Nodup

/-!
# Requests through the arbiter (`wbs_arbiter.v`, `timeout.v`, `spi_wb_bridge.v`)

The master holds a request until it samples `ack` or `err`; the arbiter strobes the slaves that
decode it and waits for one of them or for its timeout.

A run is a sequence of clock cycles.  `Sys` carries besides the registers what an observer of the
bus writes down: which request each strobe was for, which request ended with which response, and
which strobe each acknowledgement answers.
-/

namespace MlibDevel.Wishbone

open Lib

namespace ArbiterBus

/-! ## The registers -/

/-- `STATE_IDLE` and `STATE_WAIT` -/
inductive State
  | idle
  | wait
  deriving DecidableEq, Repr

/-- The registers of `wbs_arbiter` and of its `timeout`; the vectors have a bit for each slave. -/
structure Regs where
  state : State
  wbsActive : Nat → Bool
  wbsCycO : Nat → Bool
  wbmErrO : Bool
  wbsAdrOReg : BitVec 32
  counter : BitVec 20

/-- The inputs of `wbs_arbiter`. -/
structure WbIn where
  wbRst : Bool
  wbmCyc : Bool
  wbmStb : Bool
  wbmAdr : BitVec 32
  wbsAck : Nat → Bool

/-- The slaves whose bit is set. -/
def lines (a : WbsArbiter) (v : Nat → Bool) : List Nat := (List.range a.nSlaves).filter v

/-- `wbm_ack_o` -/
def Regs.wbmAckO (a : WbsArbiter) (s : Regs) (wbsAck : Nat → Bool) : Bool :=
  !(lines a fun i => wbsAck i && s.wbsActive i).isEmpty

/-- The output of `timeout`, whose parameter is `TIMEOUT`. -/
def Regs.timeout (timeOut : Nat) (s : Regs) : Bool :=
  if timeOut = 0 then false else timeOut ≤ s.counter.toNat

/-- `always @(posedge wb_clk_i)` of both modules -/
def Regs.edge (a : WbsArbiter) (timeOut : Nat) (s : Regs) (i : WbIn) : Regs :=
  let timeoutReset := s.state ≠ .wait
  -- strobes
  let s' : Regs :=
    { s with
      wbsCycO := fun _ => false
      wbmErrO := false
      counter := if i.wbRst || timeoutReset || s.timeout timeOut then 0 else s.counter + 1 }
  if i.wbRst then { s' with state := .idle, wbsActive := fun _ => false }
  else
    match s.state with
    | .idle =>
      if i.wbmCyc && i.wbmStb then
        if (lines a (a.wbsSelBit i.wbmAdr)).isEmpty then { s' with wbmErrO := true }
        else
          { s' with
            wbsActive := a.wbsSelBit i.wbmAdr
            wbsAdrOReg := a.wbsAdrO i.wbmAdr
            wbsCycO := a.wbsSelBit i.wbmAdr
            state := .wait }
      else s'
    | .wait =>
      if s.wbmAckO a i.wbsAck then { s' with state := .idle }
      else if s.timeout timeOut then { s' with wbmErrO := true, state := .idle }
      else s'

/-- The registers of `spi_wb_bridge` that drive the bus and those that hold its answer. -/
structure Master where
  wbmCycO : Bool
  wbmStbO : Bool
  wbmAdrO : BitVec 32
  wbErrReg : Bool
  wbAckReg : Bool
  deriving DecidableEq, Repr

/-- The transaction block of `spi_wb_bridge`. -/
def Master.edge (m : Master) (wbRst : Bool) (newCmd : Option (BitVec 32)) (ack err : Bool) :
    Master :=
  if wbRst then { m with wbmCycO := false, wbmStbO := false }
  else
    let m : Master :=
      match newCmd with
      | some adr => { m with wbmAdrO := adr, wbmCycO := true, wbmStbO := true }
      | none => m
    if ack || err then
      { m with wbmCycO := false, wbmStbO := false, wbErrReg := err, wbAckReg := ack }
    else m

/-! ## Runs -/

/-- The bus and what has been seen on it. -/
structure Sys where
  regs : Regs
  master : Master
  /-- the requests made so far; the last one has this number -/
  requests : Nat
  /-- the requests whose strobes slave `i` has not answered -/
  owed : Nat → List Nat
  /-- for each strobe its request and its slave -/
  strobes : List (Nat × Nat)
  /-- for each response the last request and whether it is an acknowledgement -/
  responses : List (Nat × Bool)
  /-- for each acknowledgement passed on the last request and the one whose strobe it answers -/
  passed : List (Nat × Nat)

/-- What the surroundings do in a cycle. -/
structure Choice where
  /-- the address of a new command -/
  newCmd : Option (BitVec 32)
  /-- the request whose strobe slave `i` answers -/
  answer : Nat → Option Nat

/-- The answers that are acknowledgements: a slave answers only strobes it has had. -/
def Sys.answers (s : Sys) (c : Choice) (i : Nat) : Option Nat :=
  (c.answer i).filter fun k => (s.owed i).contains k

/-- The acknowledge lines of the slaves. -/
def Sys.wbsAck (s : Sys) (c : Choice) (i : Nat) : Bool := (s.answers c i).isSome

/-- A new command comes only while the master has no request on the bus. -/
def Sys.newCmd (s : Sys) (c : Choice) : Option (BitVec 32) :=
  if s.master.wbmCycO then none else c.newCmd

/-- `wbm_ack_o` -/
def Sys.ack (a : WbsArbiter) (s : Sys) (c : Choice) : Bool := s.regs.wbmAckO a (s.wbsAck c)

/-- `wbm_err_o` -/
def Sys.err (s : Sys) : Bool := s.regs.wbmErrO

/-- The inputs of the arbiter. -/
def Sys.wbIn (s : Sys) (c : Choice) : WbIn where
  wbRst := false
  wbmCyc := s.master.wbmCycO
  wbmStb := s.master.wbmStbO
  wbmAdr := s.master.wbmAdrO
  wbsAck := s.wbsAck c

/-- A clock cycle. -/
def Sys.step (a : WbsArbiter) (timeOut : Nat) (s : Sys) (c : Choice) : Sys :=
  let ack := s.ack a c
  let regs := s.regs.edge a timeOut (s.wbIn c)
  let master := s.master.edge false (s.newCmd c) ack s.err
  let strobed := lines a regs.wbsCycO
  { regs
    master
    requests := if !s.master.wbmCycO && master.wbmCycO then s.requests + 1 else s.requests
    owed := fun i =>
      (s.owed i).diff (s.answers c i).toList ++ (if i ∈ strobed then [s.requests] else [])
    strobes := s.strobes ++ strobed.map fun i => (s.requests, i)
    responses := s.responses ++ (if ack then [(s.requests, true)] else []) ++
      (if s.err then [(s.requests, false)] else [])
    passed := s.passed ++ (lines a s.regs.wbsActive).filterMap fun i =>
      (s.answers c i).map fun k => (s.requests, k) }

/-- The bus after a reset, from whatever the registers held before. -/
def Sys.start (a : WbsArbiter) (timeOut : Nat) (regs : Regs) (master : Master) : Sys where
  regs := regs.edge a timeOut ⟨true, master.wbmCycO, master.wbmStbO, master.wbmAdrO, fun _ => false⟩
  master := master.edge true none false false
  requests := 0
  owed := fun _ => []
  strobes := []
  responses := []
  passed := []

/-- The bus in cycle `t`. -/
def run (a : WbsArbiter) (timeOut : Nat) (regs : Regs) (master : Master) (choice : Nat → Choice) :
    Nat → Sys :=
  atCycle (Sys.step a timeOut) (.start a timeOut regs master) choice

/-- Every request is strobed at most once and answered just once, by the strobed slave. -/
structure Serves (run : Nat → Sys) : Prop where
  strobes : ∀ t, ((run t).strobes.map Prod.fst).Nodup
  responses : ∀ t, ((run t).responses.map Prod.fst).Nodup
  terminated : ∀ t k, 1 ≤ k → k ≤ (run t).requests → ∃ t', k ∈ (run t').responses.map Prod.fst
  passed : ∀ t, ∀ p ∈ (run t).passed, p.1 = p.2

/-- Just one slave decodes each request, and it acknowledges before the arbiter gives up. -/
structure Prompt (a : WbsArbiter) (timeOut : Nat) (run : Nat → Sys) (choice : Nat → Choice) :
    Prop where
  decoded : ∀ t, (run t).regs.state = .idle → (run t).master.wbmCycO = true →
    ∃ i, lines a (a.wbsSelBit (run t).master.wbmAdrO) = [i]
  inTime : ∀ t, (run t).regs.state = .wait → (run t).regs.timeout timeOut = true →
    (run t).ack a (choice t) = true
  acked : ∀ t, (run t).regs.state = .wait → ∃ t', t ≤ t' ∧ (run t').ack a (choice t') = true

/-! ## What a cycle does -/

section Steps

variable {a : WbsArbiter} {timeOut : Nat} {s : Sys} {c : Choice}

theorem lines_none (a : WbsArbiter) : (lines a fun _ => false) = [] := by
  unfold lines
  simp

theorem answers_mem {i k : Nat} (h : s.answers c i = some k) : k ∈ s.owed i := by
  unfold Sys.answers at h
  have hk := (Option.filter_eq_some_iff.mp h).2
  simpa using hk

theorem answers_of_nil {i : Nat} (h : s.owed i = []) : s.answers c i = none := by
  cases ha : s.answers c i with
  | none => rfl
  | some k =>
    have hk := answers_mem ha
    rw [h] at hk
    cases hk

/-- Slaves that have had no strobe do not acknowledge. -/
theorem ack_of_nil (h : ∀ i, s.owed i = []) : s.ack a c = false := by
  have hnone : (fun i => s.wbsAck c i && s.regs.wbsActive i) = fun _ => false := by
    funext i
    unfold Sys.wbsAck
    rw [answers_of_nil (h i)]
    rfl
  unfold Sys.ack Regs.wbmAckO
  rw [hnone, lines_none]
  rfl

/-- Only the slave whose line is active can acknowledge. -/
theorem ack_of_single {i : Nat} (h : lines a s.regs.wbsActive = [i]) :
    s.ack a c = (s.answers c i).isSome := by
  have hfilter : (lines a fun j => s.wbsAck c j && s.regs.wbsActive j)
      = [i].filter (s.wbsAck c) := by
    rw [← h]
    unfold lines
    rw [List.filter_filter]
  unfold Sys.ack Regs.wbmAckO
  rw [hfilter]
  unfold Sys.wbsAck
  cases hs : s.answers c i <;> simp [hs]

theorem edge_quiet (a : WbsArbiter) (timeOut : Nat) (r : Regs) {i : WbIn} (hr : i.wbRst = false)
    (hs : r.state = .idle) (hc : i.wbmCyc = false) :
    r.edge a timeOut i
      = { r with wbsCycO := fun _ => false, wbmErrO := false, counter := 0 } := by
  unfold Regs.edge
  simp [hr, hs, hc]

theorem edge_undecoded (a : WbsArbiter) (timeOut : Nat) (r : Regs) {i : WbIn}
    (hr : i.wbRst = false) (hs : r.state = .idle) (hc : i.wbmCyc = true) (hb : i.wbmStb = true)
    (hl : lines a (a.wbsSelBit i.wbmAdr) = []) :
    r.edge a timeOut i
      = { r with wbsCycO := fun _ => false, wbmErrO := true, counter := 0 } := by
  unfold Regs.edge
  simp [hr, hs, hc, hb, hl]

theorem edge_request (a : WbsArbiter) (timeOut : Nat) (r : Regs) {i : WbIn} (hr : i.wbRst = false)
    (hs : r.state = .idle) (hc : i.wbmCyc = true) (hb : i.wbmStb = true)
    (hl : lines a (a.wbsSelBit i.wbmAdr) ≠ []) :
    r.edge a timeOut i
      = { r with
          state := .wait, wbsActive := a.wbsSelBit i.wbmAdr, wbsCycO := a.wbsSelBit i.wbmAdr,
          wbmErrO := false, wbsAdrOReg := a.wbsAdrO i.wbmAdr, counter := 0 } := by
  unfold Regs.edge
  simp [hr, hs, hc, hb, hl]

/-- In `STATE_WAIT` the first of acknowledgement and timeout ends the cycle. -/
theorem edge_wait (a : WbsArbiter) (timeOut : Nat) (r : Regs) {i : WbIn} (hr : i.wbRst = false)
    (hs : r.state = .wait) :
    r.edge a timeOut i
      = { r with
          state := if r.wbmAckO a i.wbsAck || r.timeout timeOut then .idle else .wait
          wbsCycO := fun _ => false
          wbmErrO := !r.wbmAckO a i.wbsAck && r.timeout timeOut
          counter := if r.timeout timeOut then 0 else r.counter + 1 } := by
  unfold Regs.edge
  cases r.wbmAckO a i.wbsAck <;> cases r.timeout timeOut <;> simp [hr, hs]

theorem step_regs (a : WbsArbiter) (timeOut : Nat) (s : Sys) (c : Choice) :
    (s.step a timeOut c).regs = s.regs.edge a timeOut (s.wbIn c) := rfl

theorem step_master (a : WbsArbiter) (timeOut : Nat) (s : Sys) (c : Choice) :
    (s.step a timeOut c).master = s.master.edge false (s.newCmd c) (s.ack a c) s.err := rfl

/-- Without a strobe nothing is added to what the slaves owe. -/
theorem step_unstrobed (a : WbsArbiter) (timeOut : Nat) (s : Sys) (c : Choice)
    (h : lines a (s.step a timeOut c).regs.wbsCycO = []) :
    (s.step a timeOut c).owed = (fun i => (s.owed i).diff (s.answers c i).toList) ∧
      (s.step a timeOut c).strobes = s.strobes := by
  have hl : lines a (s.regs.edge a timeOut (s.wbIn c)).wbsCycO = [] := h
  constructor
  · funext i
    show (s.owed i).diff _ ++ (if i ∈ lines a (s.regs.edge a timeOut (s.wbIn c)).wbsCycO
      then [s.requests] else []) = _
    rw [hl]
    simp
  · show s.strobes ++ (lines a (s.regs.edge a timeOut (s.wbIn c)).wbsCycO).map _ = _
    rw [hl]
    simp

/-- While the master has a request on the bus it makes no other. -/
theorem step_busy (a : WbsArbiter) (timeOut : Nat) (s : Sys) (c : Choice)
    (hc : s.master.wbmCycO = true) :
    (s.step a timeOut c).requests = s.requests ∧
      (s.step a timeOut c).master =
        if s.ack a c || s.err then
          { s.master with
            wbmCycO := false, wbmStbO := false, wbErrReg := s.err, wbAckReg := s.ack a c }
        else s.master := by
  constructor
  · show (if !s.master.wbmCycO && _ then _ else _) = _
    rw [hc]
    rfl
  · rw [step_master]
    unfold Sys.newCmd Master.edge
    rw [if_pos hc]
    rfl

/-- A cycle without a response. -/
theorem step_unanswered (hack : s.ack a c = false) (herr : s.err = false) :
    (s.step a timeOut c).responses = s.responses := by
  show s.responses ++ (if s.ack a c then _ else _) ++ (if s.err then _ else _) = _
  rw [hack, herr]
  simp

end Steps

/-! ## A bus on which every request is served -/

/-- The requests that have ended: all but the one on the bus. -/
def Sys.ended (s : Sys) : Nat := if s.master.wbmCycO then s.requests - 1 else s.requests

/--
The bus while all requests are served.  A response is due only for the request on the bus, and the
slaves owe at most the answer to its strobe.
-/
structure Inv (a : WbsArbiter) (s : Sys) : Prop where
  err : s.err = false
  stb : s.master.wbmStbO = s.master.wbmCycO
  made : s.master.wbmCycO = true → 1 ≤ s.requests
  responses : s.responses.map Prod.fst = List.range' 1 s.ended
  passed : ∀ p ∈ s.passed, p.1 = p.2
  idle : s.regs.state = .idle →
    (∀ i, s.owed i = []) ∧ s.strobes.map Prod.fst = List.range' 1 s.ended
  wait : s.regs.state = .wait →
    s.master.wbmCycO = true ∧ s.strobes.map Prod.fst = List.range' 1 s.requests ∧
    s.regs.wbsActive = a.wbsSelBit s.master.wbmAdrO ∧
    ∃ i, lines a s.regs.wbsActive = [i] ∧ ∀ j, s.owed j = if j = i then [s.requests] else []

theorem start_inv (a : WbsArbiter) (timeOut : Nat) (regs : Regs) (master : Master) :
    Inv a (.start a timeOut regs master) where
  err := rfl
  stb := rfl
  made := by
    intro hc
    cases hc
  responses := rfl
  passed := by
    intro p hp
    cases hp
  idle := fun _ => ⟨fun _ => rfl, rfl⟩
  wait := by
    intro hw
    cases hw

section Inv

variable {a : WbsArbiter} {timeOut : Nat} {s : Sys} {c : Choice}

/-- Nothing is passed to the master while the slaves owe nothing. -/
theorem step_passed_of_nil (h : ∀ i, s.owed i = []) :
    (s.step a timeOut c).passed = s.passed := by
  have hnone : (fun i => (s.answers c i).map fun k => (s.requests, k)) = fun _ => none := by
    funext i
    rw [answers_of_nil (h i)]
    rfl
  show s.passed ++ (lines a s.regs.wbsActive).filterMap _ = _
  rw [hnone]
  simp

/-- What is owed stays nothing. -/
theorem owed_diff_of_nil (h : ∀ i, s.owed i = []) :
    (fun i => (s.owed i).diff (s.answers c i).toList) = fun _ => [] := by
  funext i
  rw [h i, answers_of_nil (h i)]
  rfl

/-- No request is on the bus. -/
theorem Inv.quiet (h : Inv a s) (hs : s.regs.state = .idle) (hc : s.master.wbmCycO = false) :
    Inv a (s.step a timeOut c) := by
  obtain ⟨howed, hstrobes⟩ := h.idle hs
  have hack : s.ack a c = false := ack_of_nil howed
  have hregs : (s.step a timeOut c).regs
      = { s.regs with wbsCycO := fun _ => false, wbmErrO := false, counter := 0 } := by
    rw [step_regs]
    exact edge_quiet a timeOut s.regs rfl hs hc
  obtain ⟨howed', hstrobes'⟩ := step_unstrobed a timeOut s c
    (by rw [hregs]; exact lines_none a)
  have hresp : (s.step a timeOut c).responses = s.responses := step_unanswered hack h.err
  -- a new command starts a request, and the requests before it have ended
  have hmaster : (s.step a timeOut c).master.wbmStbO = (s.step a timeOut c).master.wbmCycO ∧
      (s.step a timeOut c).ended = s.ended ∧
      ((s.step a timeOut c).master.wbmCycO = true → 1 ≤ (s.step a timeOut c).requests) := by
    have hm := step_master a timeOut s c
    have hreq : (s.step a timeOut c).requests
        = if (s.step a timeOut c).master.wbmCycO then s.requests + 1 else s.requests := by
      show (if !s.master.wbmCycO && (s.step a timeOut c).master.wbmCycO then _ else _) = _
      rw [hc]
      rfl
    unfold Sys.ended
    rw [hreq, hm, hack, h.err, hc]
    unfold Sys.newCmd Master.edge
    rw [hc]
    cases c.newCmd with
    | none => simp [hc, h.stb]
    | some adr => simp
  refine ⟨?_, hmaster.1, hmaster.2.2, ?_, ?_, ?_, ?_⟩
  · show (s.step a timeOut c).regs.wbmErrO = false
    rw [hregs]
  · rw [hresp, hmaster.2.1]
    exact h.responses
  · rw [step_passed_of_nil howed]
    exact h.passed
  · intro _
    rw [howed', hstrobes', hmaster.2.1, owed_diff_of_nil howed]
    exact ⟨fun _ => rfl, hstrobes⟩
  · rw [hregs]
    intro hw
    rw [show s.regs.state = .wait from hw] at hs
    cases hs

variable (timeOut) in
/-- While the master waits for a response, neither it nor what has ended changes. -/
theorem Inv.waits (h : Inv a s) (hc : s.master.wbmCycO = true) (hack : s.ack a c = false) :
    (s.step a timeOut c).requests = s.requests ∧ (s.step a timeOut c).master = s.master ∧
      (s.step a timeOut c).responses.map Prod.fst = List.range' 1 (s.step a timeOut c).ended := by
  obtain ⟨hreq, hm⟩ := step_busy a timeOut s c hc
  rw [hack, h.err] at hm
  have hended : (s.step a timeOut c).ended = s.ended := by
    unfold Sys.ended
    rw [hreq, hm]
    rfl
  refine ⟨hreq, hm, ?_⟩
  rw [step_unanswered hack h.err, hended]
  exact h.responses

/-- The request on the bus is strobed. -/
theorem Inv.request (h : Inv a s) (hs : s.regs.state = .idle) (hc : s.master.wbmCycO = true)
    {i : Nat} (hl : lines a (a.wbsSelBit s.master.wbmAdrO) = [i]) :
    Inv a (s.step a timeOut c) := by
  obtain ⟨howed, hstrobes⟩ := h.idle hs
  have hack : s.ack a c = false := ack_of_nil howed
  have hregs : (s.step a timeOut c).regs = _ :=
    edge_request a timeOut s.regs (i := s.wbIn c) rfl hs hc
      (by rw [← hc]; exact h.stb) (by unfold Sys.wbIn; rw [hl]; simp)
  obtain ⟨hreq, hm, hresponses⟩ := h.waits timeOut hc hack
  have hmade := h.made hc
  have hended : s.ended = s.requests - 1 := by
    unfold Sys.ended
    rw [hc]
    rfl
  have hlines : lines a (s.step a timeOut c).regs.wbsCycO = [i] := by
    rw [hregs]
    exact hl
  refine ⟨?_, ?_, ?_, ?_, ?_, ?_, ?_⟩
  · show (s.step a timeOut c).regs.wbmErrO = false
    rw [hregs]
  · rw [hm]
    exact h.stb
  · rw [hm, hreq]
    exact h.made
  · exact hresponses
  · rw [step_passed_of_nil howed]
    exact h.passed
  · rw [hregs]
    intro hi
    cases hi
  · intro _
    refine ⟨?_, ?_, ?_, i, ?_, ?_⟩
    · rw [hm]
      exact hc
    · show (s.strobes ++ (lines a (s.step a timeOut c).regs.wbsCycO).map _).map Prod.fst = _
      rw [hlines, List.map_append, hstrobes, hended, hreq]
      obtain ⟨k, hk⟩ : ∃ k, s.requests = k + 1 := ⟨s.requests - 1, by omega⟩
      rw [hk, List.range'_concat]
      simp
      omega
    · rw [hregs, hm]
      rfl
    · rw [hregs]
      exact hl
    · intro j
      show (s.owed j).diff _ ++ (if j ∈ lines a (s.step a timeOut c).regs.wbsCycO then _ else _) = _
      rw [howed j, hlines, hreq]
      by_cases hj : j = i <;> simp [hj]

/-- The strobed slave acknowledges. -/
theorem Inv.acked (h : Inv a s) (hs : s.regs.state = .wait) (hack : s.ack a c = true) :
    Inv a (s.step a timeOut c) := by
  obtain ⟨hc, hstrobes, hactive, i, hl, howed⟩ := h.wait hs
  have hmade := h.made hc
  have hregs : (s.step a timeOut c).regs = _ :=
    edge_wait a timeOut s.regs (i := s.wbIn c) rfl hs
  have hackO : s.regs.wbmAckO a (s.wbIn c).wbsAck = true := hack
  rw [hackO] at hregs
  obtain ⟨hreq, hm⟩ := step_busy a timeOut s c hc
  rw [hack] at hm
  obtain ⟨howed', hstrobes'⟩ := step_unstrobed a timeOut s c
    (by rw [hregs]; exact lines_none a)
  -- the answer can only be to the one strobe the slave owes
  have hans : s.answers c i = some s.requests := by
    rw [ack_of_single hl] at hack
    obtain ⟨k, hk⟩ := Option.isSome_iff_exists.mp hack
    have hmem := answers_mem hk
    rw [howed i, if_pos rfl, List.mem_singleton] at hmem
    rw [hk, hmem]
  refine ⟨?_, ?_, ?_, ?_, ?_, ?_, ?_⟩
  · show (s.step a timeOut c).regs.wbmErrO = false
    rw [hregs]
    rfl
  · rw [hm]
    rfl
  · rw [hm]
    intro hc'
    cases hc'
  · show (s.responses ++ (if s.ack a c then _ else _) ++ (if s.err then _ else _)).map Prod.fst = _
    rw [hack, h.err]
    have hended : s.ended = s.requests - 1 := by
      unfold Sys.ended
      rw [hc]
      rfl
    have hended' : (s.step a timeOut c).ended = s.requests := by
      unfold Sys.ended
      rw [hm, hreq]
      rfl
    rw [hended']
    obtain ⟨k, hk⟩ : ∃ k, s.requests = k + 1 := ⟨s.requests - 1, by omega⟩
    have hresp := h.responses
    rw [hended] at hresp
    simp only [if_true, List.map_append, hresp, hk]
    rw [List.range'_concat]
    simp
    omega
  · show ∀ p ∈ s.passed ++ (lines a s.regs.wbsActive).filterMap _, p.1 = p.2
    rw [hl]
    intro p hp
    rcases List.mem_append.mp hp with hp | hp
    · exact h.passed p hp
    · simp only [List.filterMap_cons, hans, Option.map_some, List.filterMap_nil,
        List.mem_singleton] at hp
      rw [hp]
  · intro _
    refine ⟨?_, ?_⟩
    · intro j
      rw [howed']
      show (s.owed j).diff _ = []
      rw [howed j]
      by_cases hj : j = i
      · rw [hj, hans]
        simp
      · rw [if_neg hj]
        exact List.nil_diff _
    · rw [hstrobes', hstrobes]
      unfold Sys.ended
      rw [hm, hreq]
      rfl
  · rw [hregs]
    intro hw
    cases hw

/-- The arbiter waits for the strobed slave. -/
theorem Inv.hold (h : Inv a s) (hs : s.regs.state = .wait) (hack : s.ack a c = false)
    (hto : s.regs.timeout timeOut = false) :
    Inv a (s.step a timeOut c) ∧ (s.step a timeOut c).regs.state = .wait ∧
      (s.step a timeOut c).requests = s.requests := by
  obtain ⟨hc, hstrobes, hactive, i, hl, howed⟩ := h.wait hs
  have hregs : (s.step a timeOut c).regs = _ :=
    edge_wait a timeOut s.regs (i := s.wbIn c) rfl hs
  have hackO : s.regs.wbmAckO a (s.wbIn c).wbsAck = false := hack
  rw [hackO, hto] at hregs
  obtain ⟨hreq, hm, hresponses⟩ := h.waits timeOut hc hack
  obtain ⟨howed', hstrobes'⟩ := step_unstrobed a timeOut s c
    (by rw [hregs]; exact lines_none a)
  have hans : s.answers c i = none := by
    rw [ack_of_single hl] at hack
    simpa using hack
  have hwait : (s.step a timeOut c).regs.state = .wait := by
    rw [hregs]
    rfl
  refine ⟨⟨?_, ?_, ?_, ?_, ?_, ?_, ?_⟩, hwait, hreq⟩
  · show (s.step a timeOut c).regs.wbmErrO = false
    rw [hregs]
    rfl
  · rw [hm]
    exact h.stb
  · rw [hm, hreq]
    exact h.made
  · exact hresponses
  · show ∀ p ∈ s.passed ++ (lines a s.regs.wbsActive).filterMap _, p.1 = p.2
    rw [hl]
    intro p hp
    rcases List.mem_append.mp hp with hp | hp
    · exact h.passed p hp
    · simp [hans] at hp
  · rw [hwait]
    intro hi
    cases hi
  · intro _
    rw [hm, hreq, hstrobes', howed', hregs]
    refine ⟨hc, hstrobes, hactive, i, hl, ?_⟩
    intro j
    show (s.owed j).diff _ = _
    by_cases hj : j = i
    · rw [hj, hans]
      exact howed i
    · rw [howed j, if_neg hj]
      exact List.nil_diff _

end Inv

/-! ## Where a request goes wrong -/

section Wrong

variable {a : WbsArbiter} {timeOut : Nat} {s : Sys}

/-- A request that no slave decodes is still on the bus when its error comes, and gets another. -/
theorem Inv.undecoded (h : Inv a s) (hs : s.regs.state = .idle) (hc : s.master.wbmCycO = true)
    (hl : lines a (a.wbsSelBit s.master.wbmAdrO) = []) (c c' c'' : Choice) :
    ¬((((s.step a timeOut c).step a timeOut c').step a timeOut c'').responses.map
      Prod.fst).Nodup := by
  obtain ⟨howed, -⟩ := h.idle hs
  have hstb : s.master.wbmStbO = true := by rw [h.stb, hc]
  have hack : s.ack a c = false := ack_of_nil howed
  -- the error is raised while the master holds its request
  have hregs₁ : (s.step a timeOut c).regs = _ :=
    edge_undecoded a timeOut s.regs (i := s.wbIn c) rfl hs hc hstb hl
  obtain ⟨hreq₁, hm₁, -⟩ := h.waits timeOut hc hack
  have howed₁ : ∀ i, (s.step a timeOut c).owed i = [] := by
    have hun := (step_unstrobed a timeOut s c
      (by rw [hregs₁]; exact lines_none a)).1
    rw [hun, owed_diff_of_nil howed]
    exact fun _ => rfl
  generalize s.step a timeOut c = s₁ at *
  have hc₁ : s₁.master.wbmCycO = true := by
    rw [hm₁]
    exact hc
  have herr₁ : s₁.err = true := by
    unfold Sys.err
    rw [hregs₁]
  -- the arbiter decodes it once more
  have hregs₂ : (s₁.step a timeOut c').regs = _ :=
    edge_undecoded a timeOut s₁.regs (i := s₁.wbIn c') rfl
      (by rw [hregs₁]; exact hs) hc₁ (by unfold Sys.wbIn; rw [hm₁]; exact hstb)
      (by unfold Sys.wbIn; rw [hm₁]; exact hl)
  obtain ⟨hreq₂, -⟩ := step_busy a timeOut s₁ c' hc₁
  have hresp₂ : s.requests ∈ (s₁.step a timeOut c').responses.map Prod.fst := by
    show _ ∈ (s₁.responses ++ (if s₁.ack a c' then _ else _) ++ (if s₁.err then _ else _)).map _
    rw [herr₁, hreq₁]
    simp
  generalize s₁.step a timeOut c' = s₂ at *
  have herr₂ : s₂.err = true := by
    unfold Sys.err
    rw [hregs₂]
  intro hnodup
  have hsplit : (s₂.step a timeOut c'').responses.map Prod.fst
      = s₂.responses.map Prod.fst ++
        ((if s₂.ack a c'' then [(s₂.requests, true)] else [])
          ++ [(s₂.requests, false)]).map Prod.fst := by
    show (s₂.responses ++ (if s₂.ack a c'' then _ else _) ++ (if s₂.err then _ else _)).map _ = _
    rw [herr₂]
    simp
  rw [hsplit] at hnodup
  refine List.disjoint_of_nodup_append hnodup hresp₂ ?_
  rw [hreq₂, hreq₁]
  simp

/-- A request that several slaves decode is strobed on all their lines. -/
theorem Inv.several (hs : s.regs.state = .idle) (h : Inv a s) (hc : s.master.wbmCycO = true)
    {i j : Nat} {l : List Nat} (hl : lines a (a.wbsSelBit s.master.wbmAdrO) = i :: j :: l)
    (c : Choice) : ¬((s.step a timeOut c).strobes.map Prod.fst).Nodup := by
  have hregs : (s.step a timeOut c).regs = _ :=
    edge_request a timeOut s.regs (i := s.wbIn c) rfl hs hc
      (by rw [← hc]; exact h.stb) (by unfold Sys.wbIn; rw [hl]; simp)
  have hlines : lines a (s.step a timeOut c).regs.wbsCycO = i :: j :: l := by
    rw [hregs]
    exact hl
  have hstrobes : (s.step a timeOut c).strobes
      = s.strobes ++ (lines a (s.step a timeOut c).regs.wbsCycO).map fun k => (s.requests, k) := rfl
  rw [hstrobes, hlines]
  intro hnodup
  rw [List.map_append] at hnodup
  have htwice := (List.nodup_append.mp hnodup).2.1
  simp at htwice

/-- A request is still on the bus when its timeout comes, and is strobed again. -/
theorem Inv.timedOut (h : Inv a s) (hs : s.regs.state = .wait) {c : Choice}
    (hack : s.ack a c = false) (hto : s.regs.timeout timeOut = true) (c' : Choice) :
    ¬(((s.step a timeOut c).step a timeOut c').strobes.map Prod.fst).Nodup := by
  obtain ⟨hc, hstrobes, hactive, i, hl, -⟩ := h.wait hs
  have hmade := h.made hc
  have hstb : s.master.wbmStbO = true := by rw [h.stb, hc]
  have hregs₁ : (s.step a timeOut c).regs = _ :=
    edge_wait a timeOut s.regs (i := s.wbIn c) rfl hs
  rw [hto, Bool.or_true] at hregs₁
  obtain ⟨hreq₁, hm₁, -⟩ := h.waits timeOut hc hack
  have hstrobes₁ := (step_unstrobed a timeOut s c
    (by rw [hregs₁]; exact lines_none a)).2
  generalize s.step a timeOut c = s₁ at *
  have hl₁ : lines a (a.wbsSelBit s₁.master.wbmAdrO) = [i] := by
    rw [hm₁, ← hl, hactive]
  have hregs₂ : (s₁.step a timeOut c').regs = _ :=
    edge_request a timeOut s₁.regs (i := s₁.wbIn c') rfl
      (by rw [hregs₁]; rfl) (by unfold Sys.wbIn; rw [hm₁]; exact hc)
      (by unfold Sys.wbIn; rw [hm₁]; exact hstb) (by unfold Sys.wbIn; rw [hl₁]; simp)
  have hlines : lines a (s₁.step a timeOut c').regs.wbsCycO = [i] := by
    rw [hregs₂]
    exact hl₁
  have hstrobes₂ : (s₁.step a timeOut c').strobes
      = s₁.strobes ++ (lines a (s₁.step a timeOut c').regs.wbsCycO).map
        fun k => (s₁.requests, k) := rfl
  rw [hstrobes₂, hlines, hstrobes₁, List.map_append, hstrobes, hreq₁]
  intro hnodup
  refine List.disjoint_of_nodup_append hnodup (List.mem_range'_1.mpr ⟨hmade, ?_⟩) ?_
  · omega
  · simp

end Wrong

/-! ## Whole runs -/

section Runs

variable {a : WbsArbiter} {timeOut : Nat} {s : Sys} {c : Choice}

/-- A prompt cycle. -/
def Ok (a : WbsArbiter) (timeOut : Nat) (s : Sys) (c : Choice) : Prop :=
  (s.regs.state = .idle → s.master.wbmCycO = true →
    ∃ i, lines a (a.wbsSelBit s.master.wbmAdrO) = [i]) ∧
  (s.regs.state = .wait → s.regs.timeout timeOut = true → s.ack a c = true)

theorem Inv.step (h : Inv a s) (hok : Ok a timeOut s c) : Inv a (s.step a timeOut c) := by
  cases hs : s.regs.state with
  | idle =>
    cases hc : s.master.wbmCycO with
    | false => exact h.quiet hs hc
    | true =>
      obtain ⟨i, hl⟩ := hok.1 hs hc
      exact h.request hs hc hl
  | wait =>
    cases hack : s.ack a c with
    | true => exact h.acked hs hack
    | false =>
      refine (h.hold hs hack ?_).1
      by_contra hto
      rw [hok.2 hs (by simpa using hto)] at hack
      cases hack

/-- The strobed slave of a request that is waited for has not answered. -/
theorem Inv.unanswered (h : Inv a s) (hs : s.regs.state = .wait) :
    s.requests ∉ s.responses.map Prod.fst := by
  have hc := (h.wait hs).1
  have hmade := h.made hc
  rw [h.responses]
  unfold Sys.ended
  rw [hc, List.mem_range'_1]
  simp only [if_true]
  omega

/-- A response stays where it was written down. -/
theorem responses_mono (s : Sys) (c : Choice) {k : Nat} (hk : k ∈ s.responses.map Prod.fst) :
    k ∈ (s.step a timeOut c).responses.map Prod.fst := by
  show k ∈ (s.responses ++ (if s.ack a c then _ else _) ++ (if s.err then _ else _)).map Prod.fst
  simp only [List.map_append]
  exact List.mem_append_left _ (List.mem_append_left _ hk)

/-- An acknowledged request is answered. -/
theorem mem_responses_of_ack (hack : s.ack a c = true) :
    s.requests ∈ (s.step a timeOut c).responses.map Prod.fst := by
  show _ ∈ (s.responses ++ (if s.ack a c then _ else _) ++ (if s.err then _ else _)).map Prod.fst
  rw [hack]
  simp

end Runs

section Serves

variable {a : WbsArbiter} {timeOut : Nat} {r : Nat → Sys} {choice : Nat → Choice}

/-- While it is not acknowledged, a request of a prompt run is waited for. -/
theorem waits_of_ok (hnext : ∀ t, r (t + 1) = (r t).step a timeOut (choice t))
    (hinv : ∀ t, Inv a (r t)) (hok : ∀ t, Ok a timeOut (r t) (choice t)) (k t : Nat)
    (hw : (r t).regs.state = .wait ∧ (r t).requests = k) (hack : ¬(r t).ack a (choice t) = true) :
    (r (t + 1)).regs.state = .wait ∧ (r (t + 1)).requests = k := by
  have hto : (r t).regs.timeout timeOut = false := by
    by_contra hto
    exact hack ((hok t).2 hw.1 (by simpa using hto))
  obtain ⟨-, hs, hreq⟩ := (hinv t).hold hw.1 (by simpa using hack) hto
  rw [hnext t]
  exact ⟨hs, by rw [hreq, hw.2]⟩

/-- A request that is waited for is answered. -/
theorem answered_of_wait (hnext : ∀ t, r (t + 1) = (r t).step a timeOut (choice t))
    (hinv : ∀ t, Inv a (r t)) (hok : ∀ t, Ok a timeOut (r t) (choice t)) {t : Nat}
    (hs : (r t).regs.state = .wait) (hacked : ∃ t', t ≤ t' ∧ (r t').ack a (choice t') = true) :
    ∃ t', (r t).requests ∈ (r t').responses.map Prod.fst := by
  obtain ⟨t', -, ht'⟩ := waits_until
    (P := fun u => (r u).regs.state = .wait ∧ (r u).requests = (r t).requests)
    (Q := fun u => (r t).requests ∈ (r u).responses.map Prod.fst)
    (waits_of_ok hnext hinv hok (r t).requests)
    (fun u hu hack => by rw [← hu.2, hnext u]; exact mem_responses_of_ack hack) ⟨hs, rfl⟩ hacked
  exact ⟨t', ht'⟩

theorem Prompt.ok (h : Prompt a timeOut r choice) (t : Nat) : Ok a timeOut (r t) (choice t) :=
  ⟨h.decoded t, h.inTime t⟩

theorem Prompt.serves (hnext : ∀ t, r (t + 1) = (r t).step a timeOut (choice t))
    (hinv : ∀ t, Inv a (r t)) (h : Prompt a timeOut r choice) : Serves r := by
  refine ⟨?_, ?_, ?_, fun t => (hinv t).passed⟩
  · intro t
    cases hs : (r t).regs.state with
    | idle =>
      rw [((hinv t).idle hs).2]
      exact List.nodup_range'
    | wait =>
      rw [((hinv t).wait hs).2.1]
      exact List.nodup_range'
  · intro t
    rw [(hinv t).responses]
    exact List.nodup_range'
  · intro t k hk hkt
    by_cases hended : k ≤ (r t).ended
    · refine ⟨t, ?_⟩
      rw [(hinv t).responses]
      exact List.mem_range'_1.mpr ⟨hk, by omega⟩
    · -- the request is still on the bus
      unfold Sys.ended at hended
      have hc : (r t).master.wbmCycO = true := by
        by_contra hc
        rw [if_neg hc] at hended
        exact hended hkt
      rw [if_pos hc] at hended
      have hlast : k = (r t).requests := by omega
      rw [hlast]
      cases hs : (r t).regs.state with
      | wait => exact answered_of_wait hnext hinv h.ok hs (h.acked t hs)
      | idle =>
        obtain ⟨i, hl⟩ := h.decoded t hs hc
        have hwait : (r (t + 1)).regs.state = .wait := by
          rw [hnext t, step_regs, edge_request a timeOut _ rfl hs hc
            (by unfold Sys.wbIn; rw [← hc]; exact (hinv t).stb)
            (by unfold Sys.wbIn; rw [hl]; simp)]
        have hreq : (r (t + 1)).requests = (r t).requests := by
          rw [hnext t]
          exact (step_busy a timeOut _ _ hc).1
        rw [← hreq]
        exact answered_of_wait hnext hinv h.ok hwait (h.acked (t + 1) hwait)

/-- The first cycle that is not prompt spoils the run. -/
theorem Serves.ok (hnext : ∀ t, r (t + 1) = (r t).step a timeOut (choice t)) (h : Serves r)
    {t : Nat} (hinv : Inv a (r t)) : Ok a timeOut (r t) (choice t) := by
  constructor
  · intro hs hc
    match hl : lines a (a.wbsSelBit (r t).master.wbmAdrO) with
    | [] =>
      refine absurd (h.responses (t + 3)) ?_
      rw [hnext (t + 2), hnext (t + 1), hnext t]
      exact hinv.undecoded hs hc hl _ _ _
    | [i] => exact ⟨i, rfl⟩
    | i :: j :: l =>
      refine absurd (h.strobes (t + 1)) ?_
      rw [hnext t]
      exact hinv.several hs hc hl _
  · intro hs hto
    by_contra hack
    refine absurd (h.strobes (t + 2)) ?_
    rw [hnext (t + 1), hnext t]
    exact hinv.timedOut hs (by simpa using hack) hto _

theorem Serves.inv (hnext : ∀ t, r (t + 1) = (r t).step a timeOut (choice t)) (hstart : Inv a (r 0))
    (h : Serves r) (t : Nat) : Inv a (r t) := by
  induction t with
  | zero => exact hstart
  | succ t ih =>
    rw [hnext t]
    exact ih.step (h.ok hnext ih)

theorem Serves.prompt (hnext : ∀ t, r (t + 1) = (r t).step a timeOut (choice t))
    (hstart : Inv a (r 0)) (h : Serves r) : Prompt a timeOut r choice := by
  have hinv := h.inv hnext hstart
  have hok : ∀ t, Ok a timeOut (r t) (choice t) := fun t => h.ok hnext (hinv t)
  refine ⟨fun t => (hok t).1, fun t => (hok t).2, ?_⟩
  intro t hs
  by_contra hnever
  have hno : ∀ t', t ≤ t' → ¬(r t').ack a (choice t') = true :=
    fun t' ht hack => hnever ⟨t', ht, hack⟩
  -- the arbiter waits for ever, and the request stays without an answer
  have hwait := waits_forever
    (P := fun u => (r u).regs.state = .wait ∧ (r u).requests = (r t).requests)
    (waits_of_ok hnext hinv hok (r t).requests) ⟨hs, rfl⟩ hno
  have hmade := (hinv t).made ((hinv t).wait hs).1
  obtain ⟨t', ht'⟩ := h.terminated t (r t).requests hmade le_rfl
  have hlater : ∀ d, (r t).requests ∈ (r (t' + d)).responses.map Prod.fst := by
    intro d
    induction d with
    | zero => exact ht'
    | succ d ih =>
      rw [← Nat.add_assoc, hnext (t' + d)]
      exact responses_mono _ _ ih
  have hlast := hwait (t' + t) (by omega)
  refine (hinv (t' + t)).unanswered hlast.1 ?_
  rw [hlast.2]
  exact hlater t

end Serves

/--
**Requests are served just when they are prompt.**

For every parameters of the arbiter, whatever the registers held before the reset, and all that the
slaves and the users of the master do: each request is strobed at most once and answered just once,
by the strobed slave, if and only if just one slave decodes each request and acknowledges it before
the timeout.
-/
theorem serves_iff_prompt (a : WbsArbiter) (timeOut : Nat) (regs : Regs) (master : Master)
    (choice : Nat → Choice) :
    Serves (run a timeOut regs master choice) ↔
      Prompt a timeOut (run a timeOut regs master choice) choice := by
  have hnext : ∀ t, run a timeOut regs master choice (t + 1)
      = (run a timeOut regs master choice t).step a timeOut (choice t) := fun _ => rfl
  have hstart := start_inv a timeOut regs master
  constructor
  · exact fun h => h.prompt hnext hstart
  · intro h
    exact h.serves hnext (atCycle_invariant_of hstart (fun _ _ hi hs => hi.step hs) h.ok)

/-- One slave at addresses 0 to 3 that never acknowledges: a request to it is strobed twice. -/
theorem serves_silentSlave :
    ¬Serves (run ⟨1, 0, 3⟩ 10
      ⟨.idle, fun _ => false, fun _ => false, false, 0, 0⟩ ⟨false, false, 0, false, false⟩
      fun _ => ⟨some 0, fun _ => none⟩) := by
  intro h
  have htwice := h.strobes 16
  revert htwice
  decide +kernel

end ArbiterBus

end MlibDevel.Wishbone
