import MlibDevel.AxiWb.Bridge
import Mathlib.Tactic.SplitIfs

/-!
# The bursts that are served (`axi_slave_wishbone_classic_master.vhd`)

Whatever the delays on the two sides, what has passed the interfaces of a run is what the bursts
done so far give, one after the other, and a part of the burst that is being served.
-/

namespace MlibDevel.AxiWb

open Lib

variable {n k : Nat}

namespace Bridge

/-- `CYC_O` and `STB_O` are those of the state. -/
structure Moore (s : Bridge n k) : Prop where
  cyc : s.cycO = (s.state == .writeAxiValid || s.state == .writeWbAck ||
    s.state == .writeAxiReady || s.state == .readWbAck || s.state == .readAxiReady)
  stb : s.stbO = (s.state == .writeWbAck || s.state == .readWbAck)

theorem reset_moore (s : Bridge n k) : Moore s.reset := ⟨rfl, rfl⟩

theorem Moore.edge {s : Bridge n k} (h : Moore s) (i : BridgeIn n k) : Moore (s.edge i) := by
  have hcyc := h.cyc
  have hstb := h.stb
  constructor
  · show s.nextCyc i = (s.nextState i == _ || s.nextState i == _ || s.nextState i == _ ||
      s.nextState i == _ || s.nextState i == _)
    rw [nextCyc, nextState, hcyc]
    cases s.state with
    | latchWriteAddress => rfl
    | latchReadAddress => rfl
    | _ => dsimp only; split_ifs <;> first | rfl | simp_all
  · show s.nextStb i = (s.nextState i == _ || s.nextState i == _)
    rw [nextStb, nextState, hstb]
    cases s.state with
    | latchWriteAddress => rfl
    | latchReadAddress => rfl
    | _ => dsimp only; split_ifs <;> first | rfl | simp_all

/-- `j` beats of a burst are done. -/
structure Counting (s : Bridge n k) (a : AxiAddr n k) (j : Nat) : Prop where
  length : s.burstLength = a.len
  count : s.burstCount = BitVec.ofNat 8 j
  address : s.currentAddress = a.addr + BitVec.ofNat n (4 * j)
  le : j ≤ a.len.toNat

/-- The last beat is told by its number. -/
theorem Counting.last {s : Bridge n k} {a : AxiAddr n k} {j : Nat} (h : Counting s a j) :
    (s.burstLength == s.burstCount) = (j == a.len.toNat) := by
  have hle := h.le
  have hlen := a.len.isLt
  rw [h.length, h.count, Bool.eq_iff_iff, beq_iff_eq, beq_iff_eq, ← BitVec.toNat_inj,
    BitVec.toNat_ofNat]
  omega

/-- Between the beats nothing is counted. -/
theorem Counting.keep {s : Bridge n k} {a : AxiAddr n k} {j : Nat} (h : Counting s a j)
    {i : BridgeIn n k} (hw : s.state ≠ .latchWriteAddress) (hr : s.state ≠ .latchReadAddress)
    (hinc : s.inc i = false) : Counting (s.edge i) a j := by
  refine ⟨?_, ?_, ?_, h.le⟩ <;> simp [edge, hw, hr, hinc, h.length, h.count, h.address]

theorem Counting.next {s : Bridge n k} {a : AxiAddr n k} {j : Nat} (h : Counting s a j)
    {i : BridgeIn n k} (hw : s.state ≠ .latchWriteAddress) (hr : s.state ≠ .latchReadAddress)
    (hinc : s.inc i = true) (hj : j ≠ a.len.toNat) : Counting (s.edge i) a (j + 1) := by
  have hle := h.le
  refine ⟨?_, ?_, ?_, by omega⟩
  · simp [edge, hw, hr, h.length]
  · simp only [edge, hw, hr, hinc, h.count, beq_iff_eq, Bool.or_eq_true, or_self, if_false, if_true]
    exact (BitVec.ofNat_add ..).symm
  · simp only [edge, hw, hr, hinc, h.address, beq_iff_eq, if_false, if_true]
    rw [BitVec.add_assoc, ← BitVec.ofNat_add, Nat.mul_add]

end Bridge

namespace Sys

variable {s : Sys n k} {c : Choice n k} {done : List (Burst n k)}

/-- What has passed the interfaces is that of the bursts done, and some more. -/
structure At (s : Sys n k) (done : List (Burst n k)) (state : State) (req : List (Request n k))
    (accs : List (WbAccess n)) (ws : List WBeat) (rs : List (RBeat k)) (bs : List (BitVec k)) :
    Prop where
  state : s.bridge.state = state
  moore : s.bridge.Moore
  whole : ∀ b ∈ done, b.Whole
  requests : s.requests = done.map Burst.request ++ req
  accesses : s.accesses = done.flatMap Burst.accesses ++ accs
  wTaken : s.wTaken = done.flatMap Burst.wTaken ++ ws
  rGiven : s.rGiven = done.flatMap Burst.rGiven ++ rs
  bGiven : s.bGiven = done.flatMap Burst.bGiven ++ bs

variable {st st' : State} {req req' : List (Request n k)} {accs accs' : List (WbAccess n)}
  {ws ws' : List WBeat} {rs rs' : List (RBeat k)} {bs bs' : List (BitVec k)}

theorem At.step (h : At s done st req accs ws rs bs)
    (hstate : s.bridge.nextState (s.signals c) = st') (hreq : req ++ s.accepted c = req')
    (haccs : accs ++ s.access c = accs') (hws : ws ++ s.wBeat c = ws')
    (hrs : rs ++ s.rBeat c = rs') (hbs : bs ++ s.response c = bs') :
    At (s.step c) done st' req' accs' ws' rs' bs' where
  state := hstate
  moore := h.moore.edge _
  whole := h.whole
  requests := by rw [Sys.step, h.requests, List.append_assoc, hreq]
  accesses := by rw [Sys.step, h.accesses, List.append_assoc, haccs]
  wTaken := by rw [Sys.step, h.wTaken, List.append_assoc, hws]
  rGiven := by rw [Sys.step, h.rGiven, List.append_assoc, hrs]
  bGiven := by rw [Sys.step, h.bGiven, List.append_assoc, hbs]

/-- A burst is done. -/
theorem At.close {b : Burst n k}
    (h : At s done st [b.request] b.accesses b.wTaken b.rGiven b.bGiven) (hb : b.Whole) :
    At s (done ++ [b]) st [] [] [] [] [] where
  state := h.state
  moore := h.moore
  whole x hx := by
    rcases List.mem_append.mp hx with hx | hx
    · exact h.whole x hx
    · rw [List.mem_singleton.mp hx]
      exact hb
  requests := by rw [h.requests]; simp
  accesses := by rw [h.accesses]; simp
  wTaken := by rw [h.wTaken]; simp
  rGiven := by rw [h.rGiven]; simp
  bGiven := by rw [h.bGiven]; simp

/-- What passes in each state. -/
theorem passes (h : At s done st req accs ws rs bs) :
    s.accepted c =
        (if st = .latchWriteAddress then (offer s.awHeld c.aw).toList.map .write else []) ++
          (if st = .latchReadAddress then (offer s.arHeld c.ar).toList.map .read else []) ∧
      (st ≠ .writeWbAck → st ≠ .readWbAck → s.access c = []) ∧
      s.wBeat c = (if st = .writeAxiReady then (offer s.wHeld c.w).toList else []) ∧
      (st ≠ .readAxiReady → s.rBeat c = []) ∧ (st ≠ .writeResp → s.response c = []) := by
  refine ⟨?_, fun hw hr => ?_, ?_, fun hr => ?_, fun hb => ?_⟩
  · simp only [accepted, Bridge.awready, Bridge.arready, h.state, taken, beq_iff_eq]
    congr 1 <;> split_ifs <;> rfl
  · have hstb : s.bridge.stbO = false := by
      rw [h.moore.stb, h.state, beq_eq_false_iff_ne.mpr hw, beq_eq_false_iff_ne.mpr hr]
      rfl
    rw [access, signals, hstb]
    simp
  · simp only [wBeat, Bridge.wready, h.state, taken, beq_iff_eq]
  · rw [rBeat, Bridge.rvalid, h.state, beq_eq_false_iff_ne.mpr hr]
    rfl
  · rw [response, Bridge.bvalid, h.state, beq_eq_false_iff_ne.mpr hb]
    rfl

/-! ## The phases of a burst -/

/-- Where the bridge is in its work. -/
inductive Phase (s : Sys n k) (done : List (Burst n k)) : Prop
  | idle (h : At s done .idle [] [] [] [] [])
  | latchWrite (a : AxiAddr n k) (h : At s done .latchWriteAddress [] [] [] [] [])
    (held : s.awHeld = some a)
  | writeValid (a : AxiAddr n k) (beats : List WBeat)
    (h : At s done .writeAxiValid [.write a] (Burst.accesses (.write a beats)) beats [] [])
    (count : s.bridge.Counting a beats.length) (bid : s.bridge.bid = a.id)
  | writeAck (a : AxiAddr n k) (beats : List WBeat) (b : WBeat)
    (h : At s done .writeWbAck [.write a] (Burst.accesses (.write a beats)) beats [] [])
    (count : s.bridge.Counting a beats.length) (bid : s.bridge.bid = a.id)
    (held : s.wHeld = some b)
    (bus : s.bridge.weO = true ∧ s.bridge.selO = b.strb ∧ s.bridge.datO = b.data)
  | writeReady (a : AxiAddr n k) (beats : List WBeat) (b : WBeat)
    (h : At s done .writeAxiReady [.write a] (Burst.accesses (.write a (beats ++ [b]))) beats [] [])
    (count : s.bridge.Counting a beats.length) (bid : s.bridge.bid = a.id)
    (held : s.wHeld = some b)
  | writeResp (a : AxiAddr n k) (beats : List WBeat)
    (h : At s done .writeResp [.write a] (Burst.accesses (.write a beats)) beats [] [])
    (whole : beats.length = a.len.toNat + 1) (bid : s.bridge.bid = a.id)
  | latchRead (a : AxiAddr n k) (h : At s done .latchReadAddress [] [] [] [] [])
    (held : s.arHeld = some a)
  | readAck (a : AxiAddr n k) (data : List (BitVec 32))
    (h : At s done .readWbAck [.read a] (Burst.accesses (.read a data)) []
      (Burst.rGiven (.read a data)) [])
    (count : s.bridge.Counting a data.length) (rid : s.bridge.rid = a.id)
    (bus : s.bridge.weO = false ∧ s.bridge.selO = 0xf)
  | readReady (a : AxiAddr n k) (data : List (BitVec 32)) (d : BitVec 32)
    (h : At s done .readAxiReady [.read a] (Burst.accesses (.read a (data ++ [d]))) []
      (Burst.rGiven (.read a data)) [])
    (count : s.bridge.Counting a data.length) (rid : s.bridge.rid = a.id)
    (rdata : s.bridge.rdata = d)

/-- A state in which nothing passes. -/
theorem At.step_quiet (h : At s done st req accs ws rs bs)
    (hstate : s.bridge.nextState (s.signals c) = st')
    (hquiet : st = .idle ∨ st = .writeAxiValid) : At (s.step c) done st' req accs ws rs bs := by
  obtain ⟨hreq, hacc, hw, hr, hb⟩ := passes (c := c) h
  refine h.step hstate ?_ ?_ ?_ ?_ ?_
  · rw [hreq]
    rcases hquiet with rfl | rfl <;> simp
  · rw [hacc (by rcases hquiet with rfl | rfl <;> simp) (by rcases hquiet with rfl | rfl <;> simp),
      List.append_nil]
  · rw [hw]
    rcases hquiet with rfl | rfl <;> simp
  · rw [hr (by rcases hquiet with rfl | rfl <;> simp), List.append_nil]
  · rw [hb (by rcases hquiet with rfl | rfl <;> simp), List.append_nil]

theorem idle_step (h : At s done .idle [] [] [] [] []) : Phase (s.step c) done := by
  by_cases hwrite : ((s.signals c).awvalid && (s.signals c).wvalid) = true
  · obtain ⟨haw, -⟩ := Bool.and_eq_true_iff.mp hwrite
    obtain ⟨a, ha⟩ := Option.isSome_iff_exists.mp haw
    refine .latchWrite a (h.step_quiet ?_ (.inl rfl)) ?_
    · rw [Bridge.nextState, h.state]
      exact if_pos hwrite
    · show keep (offer s.awHeld c.aw) s.bridge.awready = _
      rw [Bridge.awready, h.state, ha]
      rfl
  · by_cases hread : (s.signals c).arvalid = true
    · obtain ⟨a, ha⟩ := Option.isSome_iff_exists.mp hread
      refine .latchRead a (h.step_quiet ?_ (.inl rfl)) ?_
      · rw [Bridge.nextState, h.state]
        exact (if_neg hwrite).trans (if_pos hread)
      · show keep (offer s.arHeld c.ar) s.bridge.arready = _
        rw [Bridge.arready, h.state, ha]
        rfl
    · refine .idle (h.step_quiet ?_ (.inl rfl))
      rw [Bridge.nextState, h.state]
      exact (if_neg hwrite).trans (if_neg hread)

/-- The first cycle of a write. -/
theorem latchWrite_step {a : AxiAddr n k} (h : At s done .latchWriteAddress [] [] [] [] [])
    (held : s.awHeld = some a) : Phase (s.step c) done := by
  obtain ⟨hreq, hacc, hw, hr, hb⟩ := passes (c := c) h
  have hsignal : (s.signals c).aw = a := by rw [signals, held]; rfl
  refine .writeValid a [] (h.step ?_ ?_ ?_ ?_ ?_ ?_) ⟨?_, ?_, ?_, Nat.zero_le _⟩ ?_
  · rw [Bridge.nextState, h.state]
  · rw [hreq, held]
    rfl
  · rw [hacc (by simp) (by simp)]
    rfl
  · rw [hw]
    rfl
  · rw [hr (by simp)]
    rfl
  · rw [hb (by simp)]
    rfl
  · simp [Sys.step, Bridge.edge, h.state, hsignal]
  · simp [Sys.step, Bridge.edge, h.state]
  · simp [Sys.step, Bridge.edge, h.state, hsignal]
  · simp [Sys.step, Bridge.edge, h.state, hsignal]

theorem latchRead_step {a : AxiAddr n k} (h : At s done .latchReadAddress [] [] [] [] [])
    (held : s.arHeld = some a) : Phase (s.step c) done := by
  obtain ⟨hreq, hacc, hw, hr, hb⟩ := passes (c := c) h
  have hsignal : (s.signals c).ar = a := by rw [signals, held]; rfl
  have hwriting : s.bridge.writing = false := by rw [Bridge.writing, h.state]; rfl
  refine .readAck a [] (h.step ?_ ?_ ?_ ?_ ?_ ?_) ⟨?_, ?_, ?_, Nat.zero_le _⟩ ?_ ⟨hwriting, ?_⟩
  · rw [Bridge.nextState, h.state]
  · rw [hreq, held]
    rfl
  · rw [hacc (by simp) (by simp)]
    rfl
  · rw [hw]
    rfl
  · rw [hr (by simp)]
    rfl
  · rw [hb (by simp)]
    rfl
  · simp [Sys.step, Bridge.edge, h.state, hsignal]
  · simp [Sys.step, Bridge.edge, h.state]
  · simp [Sys.step, Bridge.edge, h.state, hsignal]
  · simp [Sys.step, Bridge.edge, h.state, hsignal]
  · simp [Sys.step, Bridge.edge, hwriting]

/-- The bridge waits for the next data beat. -/
theorem writeValid_step {a : AxiAddr n k} {beats : List WBeat}
    (h : At s done .writeAxiValid [.write a] (Burst.accesses (.write a beats)) beats [] [])
    (count : s.bridge.Counting a beats.length) (bid : s.bridge.bid = a.id) :
    Phase (s.step c) done := by
  have hcount : (s.step c).bridge.Counting a beats.length :=
    count.keep (by rw [h.state]; simp) (by rw [h.state]; simp) (by rw [Bridge.inc, h.state]; rfl)
  have hbid : (s.step c).bridge.bid = a.id := by simp [Sys.step, Bridge.edge, h.state, bid]
  have hwriting : s.bridge.writing = true := by rw [Bridge.writing, h.state]; rfl
  cases hoffer : offer s.wHeld c.w with
  | none =>
    have hvalid : (s.signals c).wvalid = false := by rw [signals, hoffer]; rfl
    refine .writeValid a beats (h.step_quiet ?_ (.inr rfl)) hcount hbid
    rw [Bridge.nextState, h.state, hvalid]
    rfl
  | some b =>
    have hvalid : (s.signals c).wvalid = true := by rw [signals, hoffer]; rfl
    have hsignal : (s.signals c).w = b := by rw [signals, hoffer]; rfl
    refine .writeAck a beats b (h.step_quiet ?_ (.inr rfl)) hcount hbid ?_ ⟨hwriting, ?_, ?_⟩
    · rw [Bridge.nextState, h.state, hvalid]
      rfl
    · show keep (offer s.wHeld c.w) s.bridge.wready = _
      rw [Bridge.wready, h.state, hoffer]
      rfl
    · simp [Sys.step, Bridge.edge, hwriting, hsignal]
    · simp [Sys.step, Bridge.edge, hsignal]

/-- The slave acknowledges when it will. -/
theorem ackI_of_stb (hmoore : s.bridge.Moore)
    (hstate : s.bridge.state = .writeWbAck ∨ s.bridge.state = .readWbAck) :
    (s.signals c).ackI = c.ack := by
  have hcyc := hmoore.cyc
  have hstb := hmoore.stb
  rw [signals]
  rcases hstate with hs | hs <;> rw [hs] at hcyc hstb <;> rw [hcyc, hstb] <;> rfl

theorem writeAck_step {a : AxiAddr n k} {beats : List WBeat} {b : WBeat}
    (h : At s done .writeWbAck [.write a] (Burst.accesses (.write a beats)) beats [] [])
    (count : s.bridge.Counting a beats.length) (bid : s.bridge.bid = a.id)
    (held : s.wHeld = some b)
    (bus : s.bridge.weO = true ∧ s.bridge.selO = b.strb ∧ s.bridge.datO = b.data) :
    Phase (s.step c) done := by
  have hcount : (s.step c).bridge.Counting a beats.length :=
    count.keep (by rw [h.state]; simp) (by rw [h.state]; simp) (by rw [Bridge.inc, h.state]; rfl)
  have hbid : (s.step c).bridge.bid = a.id := by simp [Sys.step, Bridge.edge, h.state, bid]
  have hwriting : s.bridge.writing = true := by rw [Bridge.writing, h.state]; rfl
  have hheld : (s.step c).wHeld = some b := by
    show keep (offer s.wHeld c.w) s.bridge.wready = _
    rw [Bridge.wready, h.state, held]
    rfl
  have hack := ackI_of_stb (c := c) h.moore (.inl h.state)
  obtain ⟨hreq, -, hw, hr, hb⟩ := passes (c := c) h
  by_cases hyes : c.ack = true
  · refine .writeReady a beats b (h.step ?_ ?_ ?_ ?_ ?_ ?_) hcount hbid hheld
    · rw [Bridge.nextState, h.state, hack, hyes]
      rfl
    · rw [hreq]
      rfl
    · -- the beat is on the bus, at the address of its number
      rw [access, hack, hyes, if_pos rfl, bus.1, if_pos rfl, bus.2.1, bus.2.2, count.address]
      exact List.mapIdx_concat.symm
    · rw [hw]
      simp
    · rw [hr (by simp)]
      rfl
    · rw [hb (by simp)]
      rfl
  · rw [Bool.not_eq_true] at hyes
    refine .writeAck a beats b (h.step ?_ ?_ ?_ ?_ ?_ ?_) hcount hbid hheld ⟨hwriting, ?_, ?_⟩
    · rw [Bridge.nextState, h.state, hack, hyes]
      rfl
    · rw [hreq]
      rfl
    · rw [access, hack, hyes]
      exact List.append_nil _
    · rw [hw]
      simp
    · rw [hr (by simp)]
      rfl
    · rw [hb (by simp)]
      rfl
    · simp [Sys.step, Bridge.edge, hwriting, signals, held]
    · simp [Sys.step, Bridge.edge, signals, held]

/-- The data beat is accepted. -/
theorem writeReady_step {a : AxiAddr n k} {beats : List WBeat} {b : WBeat}
    (h : At s done .writeAxiReady [.write a] (Burst.accesses (.write a (beats ++ [b]))) beats [] [])
    (count : s.bridge.Counting a beats.length) (bid : s.bridge.bid = a.id)
    (held : s.wHeld = some b) : Phase (s.step c) done := by
  have hbid : (s.step c).bridge.bid = a.id := by simp [Sys.step, Bridge.edge, h.state, bid]
  have hlen : (beats ++ [b]).length = beats.length + 1 := by simp
  obtain ⟨hreq, hacc, hw, hr, hb⟩ := passes (c := c) h
  have hnext : ∀ st', s.bridge.nextState (s.signals c) = st' →
      At (s.step c) done st' [.write a] (Burst.accesses (.write a (beats ++ [b])))
        (beats ++ [b]) [] [] := by
    intro st' hst'
    refine h.step hst' ?_ ?_ ?_ ?_ ?_
    · rw [hreq]
      rfl
    · rw [hacc (by simp) (by simp), List.append_nil]
    · rw [hw, held]
      rfl
    · rw [hr (by simp)]
      rfl
    · rw [hb (by simp)]
      rfl
  by_cases hlast : beats.length = a.len.toNat
  · refine .writeResp a (beats ++ [b]) (hnext _ ?_) (by rw [hlen, hlast]) hbid
    rw [Bridge.nextState, h.state, count.last, beq_iff_eq.mpr hlast]
    rfl
  · refine .writeValid a (beats ++ [b]) (hnext _ ?_) ?_ hbid
    · rw [Bridge.nextState, h.state, count.last, beq_eq_false_iff_ne.mpr hlast]
      rfl
    · rw [hlen]
      exact count.next (by rw [h.state]; simp) (by rw [h.state]; simp)
        (by rw [Bridge.inc, h.state]; rfl) hlast

theorem writeResp_step {a : AxiAddr n k} {beats : List WBeat}
    (h : At s done .writeResp [.write a] (Burst.accesses (.write a beats)) beats [] [])
    (whole : beats.length = a.len.toNat + 1) (bid : s.bridge.bid = a.id) :
    ∃ done', Phase (s.step c) done' := by
  obtain ⟨hreq, hacc, hw, hr, -⟩ := passes (c := c) h
  have hnext : ∀ st' bs', s.bridge.nextState (s.signals c) = st' → s.response c = bs' →
      At (s.step c) done st' [.write a] (Burst.accesses (.write a beats)) beats [] bs' := by
    intro st' bs' hst' hbs'
    refine h.step hst' ?_ ?_ ?_ ?_ hbs'
    · rw [hreq]
      rfl
    · rw [hacc (by simp) (by simp), List.append_nil]
    · rw [hw]
      simp
    · rw [hr (by simp)]
      rfl
  have hresponse : s.response c = if c.bready then [a.id] else [] := by
    rw [response, Bridge.bvalid, h.state, bid]
    rfl
  by_cases hready : c.bready = true
  · refine ⟨done ++ [.write a beats], .idle (At.close (b := .write a beats) ?_ whole)⟩
    refine hnext _ _ ?_ ?_
    · rw [Bridge.nextState, h.state, signals, hready]
      rfl
    · rw [hresponse, hready]
      rfl
  · rw [Bool.not_eq_true] at hready
    refine ⟨done, .writeResp a beats (hnext _ _ ?_ ?_) whole ?_⟩
    · rw [Bridge.nextState, h.state, signals, hready]
      rfl
    · rw [hresponse, hready]
      rfl
    · simp [Sys.step, Bridge.edge, h.state, bid]

theorem readAck_step {a : AxiAddr n k} {data : List (BitVec 32)}
    (h : At s done .readWbAck [.read a] (Burst.accesses (.read a data)) []
      (Burst.rGiven (.read a data)) []) (count : s.bridge.Counting a data.length)
    (rid : s.bridge.rid = a.id) (bus : s.bridge.weO = false ∧ s.bridge.selO = 0xf) :
    Phase (s.step c) done := by
  have hcount : (s.step c).bridge.Counting a data.length :=
    count.keep (by rw [h.state]; simp) (by rw [h.state]; simp) (by rw [Bridge.inc, h.state]; rfl)
  have hrid : (s.step c).bridge.rid = a.id := by simp [Sys.step, Bridge.edge, h.state, rid]
  have hwriting : s.bridge.writing = false := by rw [Bridge.writing, h.state]; rfl
  have hack := ackI_of_stb (c := c) h.moore (.inr h.state)
  obtain ⟨hreq, -, hw, hr, hb⟩ := passes (c := c) h
  by_cases hyes : c.ack = true
  · refine .readReady a data c.dat (h.step ?_ ?_ ?_ ?_ ?_ ?_) hcount hrid ?_
    · rw [Bridge.nextState, h.state, hack, hyes]
      rfl
    · rw [hreq]
      rfl
    · rw [access, hack, hyes, if_pos rfl, bus.1, if_neg Bool.false_ne_true, bus.2, count.address]
      exact List.mapIdx_concat.symm
    · rw [hw]
      rfl
    · rw [hr (by simp), List.append_nil]
    · rw [hb (by simp)]
      rfl
    · show (if s.bridge.state == .readWbAck && (s.signals c).ackI then c.dat else _) = _
      rw [h.state, hack, hyes]
      rfl
  · rw [Bool.not_eq_true] at hyes
    refine .readAck a data (h.step ?_ ?_ ?_ ?_ ?_ ?_) hcount hrid ⟨hwriting, ?_⟩
    · rw [Bridge.nextState, h.state, hack, hyes]
      rfl
    · rw [hreq]
      rfl
    · rw [access, hack, hyes]
      exact List.append_nil _
    · rw [hw]
      rfl
    · rw [hr (by simp), List.append_nil]
    · rw [hb (by simp)]
      rfl
    · simp [Sys.step, Bridge.edge, hwriting]

/-- The read beat is given, the last one with `RLAST`. -/
theorem readReady_step {a : AxiAddr n k} {data : List (BitVec 32)} {d : BitVec 32}
    (h : At s done .readAxiReady [.read a] (Burst.accesses (.read a (data ++ [d]))) []
      (Burst.rGiven (.read a data)) []) (count : s.bridge.Counting a data.length)
    (rid : s.bridge.rid = a.id) (rdata : s.bridge.rdata = d) : ∃ done', Phase (s.step c) done' := by
  have hrid : (s.step c).bridge.rid = a.id := by simp [Sys.step, Bridge.edge, h.state, rid]
  have hwriting : s.bridge.writing = false := by rw [Bridge.writing, h.state]; rfl
  have hlen : (data ++ [d]).length = data.length + 1 := by simp
  have hlast : s.bridge.rlast = (data.length == a.len.toNat) := by
    rw [Bridge.rlast, h.state, ← count.last]
    exact (Bool.true_and _).trans BEq.comm
  have hbeat : s.rBeat c
      = if c.rready then [⟨d, data.length == a.len.toNat, a.id⟩] else [] := by
    rw [rBeat, Bridge.rvalid, h.state, rdata, hlast, rid]
    rfl
  obtain ⟨hreq, hacc, hw, -, hb⟩ := passes (c := c) h
  have hnext : ∀ st' rs', s.bridge.nextState (s.signals c) = st' →
      Burst.rGiven (.read a data) ++ s.rBeat c = rs' →
      At (s.step c) done st' [.read a] (Burst.accesses (.read a (data ++ [d]))) [] rs' [] := by
    intro st' rs' hst' hrs'
    refine h.step hst' ?_ ?_ ?_ hrs' ?_
    · rw [hreq]
      rfl
    · rw [hacc (by simp) (by simp), List.append_nil]
    · rw [hw]
      rfl
    · rw [hb (by simp)]
      rfl
  have hall : c.rready = true →
      Burst.rGiven (.read a data) ++ s.rBeat c = Burst.rGiven (.read a (data ++ [d])) := by
    intro hready
    rw [hbeat, hready]
    exact List.mapIdx_concat.symm
  by_cases hready : c.rready = true
  · by_cases hend : data.length = a.len.toNat
    · refine ⟨done ++ [.read a (data ++ [d])], .idle (At.close (b := .read a (data ++ [d])) ?_ ?_)⟩
      · refine hnext _ _ ?_ (hall hready)
        rw [Bridge.nextState, h.state, count.last, beq_iff_eq.mpr hend, signals, hready]
        rfl
      · exact hlen.trans (congrArg (· + 1) hend)
    · refine ⟨done, .readAck a (data ++ [d]) (hnext _ _ ?_ (hall hready)) ?_ hrid ⟨hwriting, ?_⟩⟩
      · rw [Bridge.nextState, h.state, count.last, beq_eq_false_iff_ne.mpr hend, signals, hready]
        rfl
      · rw [hlen]
        exact count.next (by rw [h.state]; simp) (by rw [h.state]; simp)
          (by rw [Bridge.inc, h.state, signals, hready]; rfl) hend
      · simp [Sys.step, Bridge.edge, hwriting]
  · rw [Bool.not_eq_true] at hready
    refine ⟨done, .readReady a data d (hnext _ _ ?_ ?_) ?_ hrid ?_⟩
    · rw [Bridge.nextState, h.state, signals, hready]
      rfl
    · rw [hbeat, hready]
      exact List.append_nil _
    · exact count.keep (by rw [h.state]; simp) (by rw [h.state]; simp)
        (by rw [Bridge.inc, h.state, signals, hready]; rfl)
    · simp [Sys.step, Bridge.edge, h.state, rdata]

theorem Phase.step (h : Phase s done) (c : Choice n k) : ∃ done', Phase (s.step c) done' := by
  cases h with
  | idle h => exact ⟨done, idle_step h⟩
  | latchWrite a h held => exact ⟨done, latchWrite_step h held⟩
  | writeValid a beats h count bid => exact ⟨done, writeValid_step h count bid⟩
  | writeAck a beats b h count bid held bus => exact ⟨done, writeAck_step h count bid held bus⟩
  | writeReady a beats b h count bid held => exact ⟨done, writeReady_step h count bid held⟩
  | writeResp a beats h whole bid => exact writeResp_step h whole bid
  | latchRead a h held => exact ⟨done, latchRead_step h held⟩
  | readAck a data h count rid bus => exact ⟨done, readAck_step h count rid bus⟩
  | readReady a data d h count rid rdata => exact readReady_step h count rid rdata

/-! ## A burst comes to its end -/

/-- What the bridge waits for in a state. -/
def goes (st : State) (s : Sys n k) (c : Choice n k) : Bool :=
  match st with
  | .writeAxiValid => (offer s.wHeld c.w).isSome
  | .writeWbAck => c.ack
  | .writeResp => c.bready
  | .readWbAck => c.ack
  | .readAxiReady => c.rready
  | _ => true

/-- The cycles that a burst may still take in a state, those of waiting not counted. -/
def budget (st : State) (beats : Nat) : Nat :=
  match st with
  | .idle => 0
  | .latchWriteAddress => 1000
  | .writeAxiValid => 3 * beats + 4
  | .writeWbAck => 3 * beats + 3
  | .writeAxiReady => 3 * beats + 2
  | .writeResp => 1
  | .latchReadAddress => 1000
  | .readWbAck => 2 * beats + 2
  | .readAxiReady => 2 * beats + 1

def remaining (s : Sys n k) : Nat :=
  budget s.bridge.state (s.bridge.burstLength.toNat - s.bridge.burstCount.toNat)

/-- The bridge stays where it is while it waits. -/
theorem stays (hmoore : s.bridge.Moore) (hgo : goes s.bridge.state s c = false) :
    (s.step c).bridge.state = s.bridge.state ∧ (s.step c).remaining = s.remaining := by
  have hack : s.bridge.state = .writeWbAck ∨ s.bridge.state = .readWbAck →
      (s.signals c).ackI = c.ack := ackI_of_stb hmoore
  have hstate : s.bridge.nextState (s.signals c) = s.bridge.state := by
    rw [Bridge.nextState]
    cases hs : s.bridge.state <;> simp_all [goes, signals]
  have hinc : s.bridge.inc (s.signals c) = false := by
    rw [Bridge.inc]
    cases hs : s.bridge.state <;> simp_all [goes, signals]
  have hlatch : s.bridge.state ≠ .latchWriteAddress ∧ s.bridge.state ≠ .latchReadAddress := by
    constructor <;> intro hs <;> simp [goes, hs] at hgo
  refine ⟨hstate, ?_⟩
  have hlen : (s.step c).bridge.burstLength = s.bridge.burstLength := by
    simp [Sys.step, Bridge.edge, hlatch]
  have hcount : (s.step c).bridge.burstCount = s.bridge.burstCount := by
    simp [Sys.step, Bridge.edge, hlatch, hinc]
  have hstep : (s.step c).bridge.state = s.bridge.state := hstate
  rw [remaining, remaining, hlen, hcount, hstep]

/-- The beats that are left. -/
theorem beats_left {b : Bridge n k} {a : AxiAddr n k} {j : Nat} (h : b.Counting a j) :
    b.burstLength.toNat - b.burstCount.toNat = a.len.toNat - j := by
  have hle := h.le
  have hlen := a.len.isLt
  rw [h.length, h.count, BitVec.toNat_ofNat, Nat.mod_eq_of_lt (by omega)]

theorem remaining_of_state {q : State} (hstate : s.bridge.state = q) {m : Nat}
    (hbeats : s.bridge.burstLength.toNat - s.bridge.burstCount.toNat = m) :
    s.remaining = budget q m := by
  rw [remaining, hstate, hbeats]

/-- Else it comes closer to the end of the burst. -/
theorem Phase.advances (h : Phase s done) (hbusy : s.bridge.state ≠ .idle)
    (hgo : goes s.bridge.state s c = true) : (s.step c).remaining < s.remaining := by
  -- between two beats the counters stay
  have hkeep : ∀ {a : AxiAddr n k} {j : Nat} {q : State}, s.bridge.Counting a j →
      s.bridge.state ≠ .latchWriteAddress → s.bridge.state ≠ .latchReadAddress →
      s.bridge.inc (s.signals c) = false → s.bridge.nextState (s.signals c) = q →
      (s.step c).bridge.state = q ∧
        (s.step c).bridge.burstLength.toNat - (s.step c).bridge.burstCount.toNat
          = a.len.toNat - j := by
    intro a j q hcount hw hr hinc hst
    exact ⟨hst, beats_left (hcount.keep hw hr hinc)⟩
  cases h with
  | idle h => exact absurd h.state hbusy
  | latchWrite a h held =>
    have hlen := (s.step c).bridge.burstLength.isLt
    rw [remaining_of_state (q := .writeAxiValid) ?_ rfl, remaining_of_state h.state rfl]
    · show 3 * _ + 4 < 1000
      omega
    · show s.bridge.nextState _ = _
      rw [Bridge.nextState, h.state]
  | latchRead a h held =>
    have hlen := (s.step c).bridge.burstLength.isLt
    rw [remaining_of_state (q := .readWbAck) ?_ rfl, remaining_of_state h.state rfl]
    · show 2 * _ + 2 < 1000
      omega
    · show s.bridge.nextState _ = _
      rw [Bridge.nextState, h.state]
  | writeValid a beats h count bid =>
    rw [h.state] at hgo
    obtain ⟨hst, hbeats⟩ := hkeep (q := .writeWbAck) count (by rw [h.state]; simp)
      (by rw [h.state]; simp) (by rw [Bridge.inc, h.state]; rfl)
      (by rw [Bridge.nextState, h.state]; exact if_pos hgo)
    rw [remaining_of_state hst hbeats, remaining_of_state h.state (beats_left count)]
    exact Nat.lt_succ_self _
  | writeAck a beats b h count bid held bus =>
    rw [h.state] at hgo
    have hack := ackI_of_stb (c := c) h.moore (.inl h.state)
    obtain ⟨hst, hbeats⟩ := hkeep (q := .writeAxiReady) count (by rw [h.state]; simp)
      (by rw [h.state]; simp) (by rw [Bridge.inc, h.state]; rfl)
      (by rw [Bridge.nextState, h.state, hack]; exact if_pos hgo)
    rw [remaining_of_state hst hbeats, remaining_of_state h.state (beats_left count)]
    exact Nat.lt_succ_self _
  | writeReady a beats b h count bid held =>
    have hle := count.le
    by_cases hlast : beats.length = a.len.toNat
    · rw [remaining_of_state (q := .writeResp) ?_ rfl, remaining_of_state h.state rfl]
      · show 1 < 3 * _ + 2
        omega
      · show s.bridge.nextState _ = _
        rw [Bridge.nextState, h.state, count.last, beq_iff_eq.mpr hlast]
        rfl
    · have hnext := count.next (i := s.signals c) (by rw [h.state]; simp) (by rw [h.state]; simp)
        (by rw [Bridge.inc, h.state]; rfl) hlast
      rw [remaining_of_state (q := .writeAxiValid) ?_ (beats_left hnext),
        remaining_of_state h.state (beats_left count)]
      · show 3 * (a.len.toNat - (beats.length + 1)) + 4 < 3 * (a.len.toNat - beats.length) + 2
        omega
      · show s.bridge.nextState _ = _
        rw [Bridge.nextState, h.state, count.last, beq_eq_false_iff_ne.mpr hlast]
        rfl
  | writeResp a beats h whole bid =>
    rw [h.state] at hgo
    rw [remaining_of_state (q := .idle) ?_ rfl, remaining_of_state h.state rfl]
    · exact Nat.one_pos
    · show s.bridge.nextState _ = _
      rw [Bridge.nextState, h.state]
      exact if_pos hgo
  | readAck a data h count rid bus =>
    rw [h.state] at hgo
    have hack := ackI_of_stb (c := c) h.moore (.inr h.state)
    obtain ⟨hst, hbeats⟩ := hkeep (q := .readAxiReady) count (by rw [h.state]; simp)
      (by rw [h.state]; simp) (by rw [Bridge.inc, h.state]; rfl)
      (by rw [Bridge.nextState, h.state, hack]; exact if_pos hgo)
    rw [remaining_of_state hst hbeats, remaining_of_state h.state (beats_left count)]
    exact Nat.lt_succ_self _
  | readReady a data d h count rid rdata =>
    rw [h.state] at hgo
    have hready : (s.signals c).rready = true := hgo
    have hle := count.le
    by_cases hlast : data.length = a.len.toNat
    · rw [remaining_of_state (q := .idle) ?_ rfl, remaining_of_state h.state rfl]
      · exact Nat.succ_pos _
      · show s.bridge.nextState _ = _
        rw [Bridge.nextState, h.state, count.last, beq_iff_eq.mpr hlast, hready]
        rfl
    · have hnext := count.next (i := s.signals c) (by rw [h.state]; simp) (by rw [h.state]; simp)
        (by rw [Bridge.inc, h.state, hready]; rfl) hlast
      rw [remaining_of_state (q := .readWbAck) ?_ (beats_left hnext),
        remaining_of_state h.state (beats_left count)]
      · show 2 * (a.len.toNat - (data.length + 1)) + 2 < 2 * (a.len.toNat - data.length) + 1
        omega
      · show s.bridge.nextState _ = _
        rw [Bridge.nextState, h.state, count.last, beq_eq_false_iff_ne.mpr hlast, hready]
        rfl

end Sys

/-! ## Whole runs -/

/-- The beats of a burst are not more than it asks for. -/
def Burst.Part : Burst n k → Prop
  | .write a beats => beats.length ≤ a.len.toNat + 1
  | .read a data => data.length ≤ a.len.toNat + 1

/-- What has passed the interfaces are the bursts `bs`, one after the other, each of them whole. -/
structure Exact (s : Sys n k) (bs : List (Burst n k)) : Prop where
  whole : ∀ b ∈ bs, b.Whole
  requests : s.requests = bs.map Burst.request
  accesses : s.accesses = bs.flatMap Burst.accesses
  wTaken : s.wTaken = bs.flatMap Burst.wTaken
  rGiven : s.rGiven = bs.flatMap Burst.rGiven
  bGiven : s.bGiven = bs.flatMap Burst.bGiven

/--
What has passed are the bursts `bs`, the last of them so far as it has come: its beats are accessed
before they are accepted and given.
-/
structure Within (s : Sys n k) (bs : List (Burst n k)) : Prop where
  whole : ∀ b ∈ bs.dropLast, b.Whole
  part : ∀ b ∈ bs, b.Part
  requests : s.requests = bs.map Burst.request
  accesses : s.accesses = bs.flatMap Burst.accesses
  wTaken : s.wTaken <+: bs.flatMap Burst.wTaken
  rGiven : s.rGiven <+: bs.flatMap Burst.rGiven
  bGiven : s.bGiven <+: bs.flatMap Burst.bGiven

/-- All that the bridge waits for comes at some time. -/
structure Answering (run : Nat → Sys n k) (choice : Nat → Choice n k) : Prop where
  wvalid : ∀ t, (run t).bridge.state = .writeAxiValid →
    ∃ t', t ≤ t' ∧ (offer (run t').wHeld (choice t').w).isSome = true
  ack : ∀ t, (run t).bridge.stbO = true → ∃ t', t ≤ t' ∧ (choice t').ack = true
  rready : ∀ t, (run t).bridge.rvalid = true → ∃ t', t ≤ t' ∧ (choice t').rready = true
  bready : ∀ t, (run t).bridge.bvalid = true → ∃ t', t ≤ t' ∧ (choice t').bready = true

namespace Sys

variable {s : Sys n k} {done : List (Burst n k)}

/-- The bridge in cycle `t`. -/
def run (b : Bridge n k) (choice : Nat → Choice n k) : Nat → Sys n k :=
  atCycle step (start b) choice

/-- When the bridge is idle, all bursts are done. -/
theorem Phase.exact (h : Phase s done) (hidle : s.bridge.state = .idle) : Exact s done := by
  cases h with
  | idle h =>
    refine ⟨h.whole, ?_, ?_, ?_, ?_, ?_⟩
    · rw [h.requests, List.append_nil]
    · rw [h.accesses, List.append_nil]
    · rw [h.wTaken, List.append_nil]
    · rw [h.rGiven, List.append_nil]
    · rw [h.bGiven, List.append_nil]
  | latchWrite a h => exact absurd (h.state.symm.trans hidle) (by simp)
  | writeValid a beats h => exact absurd (h.state.symm.trans hidle) (by simp)
  | writeAck a beats b h => exact absurd (h.state.symm.trans hidle) (by simp)
  | writeReady a beats b h => exact absurd (h.state.symm.trans hidle) (by simp)
  | writeResp a beats h => exact absurd (h.state.symm.trans hidle) (by simp)
  | latchRead a h => exact absurd (h.state.symm.trans hidle) (by simp)
  | readAck a data h => exact absurd (h.state.symm.trans hidle) (by simp)
  | readReady a data d h => exact absurd (h.state.symm.trans hidle) (by simp)

/-- With the burst that is being served. -/
theorem At.within {b : Burst n k} (h : At s done st [b.request] b.accesses ws rs bs)
    (hpart : b.Part) (hws : ws <+: b.wTaken) (hrs : rs <+: b.rGiven) (hbs : bs <+: b.bGiven) :
    Within s (done ++ [b]) where
  whole := by
    rw [List.dropLast_concat]
    exact h.whole
  part x hx := by
    rcases List.mem_append.mp hx with hx | hx
    · have hwhole := h.whole x hx
      cases x <;> exact Nat.le_of_eq hwhole
    · rw [List.mem_singleton.mp hx]
      exact hpart
  requests := by rw [h.requests]; simp
  accesses := by rw [h.accesses]; simp
  wTaken := by
    rw [h.wTaken, List.flatMap_append, List.flatMap_singleton]
    exact (List.prefix_append_right_inj _).mpr hws
  rGiven := by
    rw [h.rGiven, List.flatMap_append, List.flatMap_singleton]
    exact (List.prefix_append_right_inj _).mpr hrs
  bGiven := by
    rw [h.bGiven, List.flatMap_append, List.flatMap_singleton]
    exact (List.prefix_append_right_inj _).mpr hbs

/-- Before a burst is accepted. -/
theorem At.within_done (h : At s done st [] [] [] [] []) : Within s done where
  whole b hb := h.whole b (List.dropLast_subset done hb)
  part b hb := by
    have hwhole := h.whole b hb
    cases b <;> exact Nat.le_of_eq hwhole
  requests := by rw [h.requests, List.append_nil]
  accesses := by rw [h.accesses, List.append_nil]
  wTaken := by simp only [h.wTaken, List.append_nil, List.prefix_refl]
  rGiven := by simp only [h.rGiven, List.append_nil, List.prefix_refl]
  bGiven := by simp only [h.bGiven, List.append_nil, List.prefix_refl]

theorem Phase.within (h : Phase s done) : ∃ bs, Within s bs := by
  cases h with
  | idle h => exact ⟨done, h.within_done⟩
  | latchWrite a h => exact ⟨done, h.within_done⟩
  | latchRead a h => exact ⟨done, h.within_done⟩
  | writeValid a beats h count =>
    refine ⟨_, At.within (b := .write a beats) h ?_ (List.prefix_refl _) List.nil_prefix
      List.nil_prefix⟩
    exact Nat.le_succ_of_le count.le
  | writeAck a beats b h count =>
    refine ⟨_, At.within (b := .write a beats) h ?_ (List.prefix_refl _) List.nil_prefix
      List.nil_prefix⟩
    exact Nat.le_succ_of_le count.le
  | writeReady a beats b h count =>
    refine ⟨_, At.within (b := .write a (beats ++ [b])) h ?_ (List.prefix_append _ _)
      List.nil_prefix List.nil_prefix⟩
    rw [Burst.Part, List.length_append, List.length_singleton]
    exact Nat.succ_le_succ count.le
  | writeResp a beats h whole =>
    exact ⟨_, At.within (b := .write a beats) h (Nat.le_of_eq whole) (List.prefix_refl _)
      List.nil_prefix List.nil_prefix⟩
  | readAck a data h count =>
    refine ⟨_, At.within (b := .read a data) h ?_ List.nil_prefix (List.prefix_refl _)
      List.nil_prefix⟩
    exact Nat.le_succ_of_le count.le
  | readReady a data d h count =>
    refine ⟨_, At.within (b := .read a (data ++ [d])) h ?_ List.nil_prefix ?_ List.nil_prefix⟩
    · rw [Burst.Part, List.length_append, List.length_singleton]
      exact Nat.succ_le_succ count.le
    · rw [Burst.rGiven, Burst.rGiven, List.mapIdx_concat]
      exact List.prefix_append _ _

theorem Phase.moore (h : Phase s done) : s.bridge.Moore := by
  cases h <;> exact At.moore ‹_›

/-- After a reset nothing has passed. -/
theorem start_phase (b : Bridge n k) : Phase (start b) [] :=
  .idle ⟨rfl, b.reset_moore, fun _ hb => absurd hb List.not_mem_nil, rfl, rfl, rfl, rfl, rfl⟩

variable {b : Bridge n k} {choice : Nat → Choice n k}

theorem run_phase (b : Bridge n k) (choice : Nat → Choice n k) (t : Nat) :
    ∃ done, Phase (run b choice t) done := by
  induction t with
  | zero => exact ⟨[], start_phase b⟩
  | succ t ih =>
    obtain ⟨done, h⟩ := ih
    exact h.step (choice t)

/-- What the bridge waits for comes. -/
theorem goes_of_answering (hans : Answering (run b choice) choice) (t : Nat) :
    ∃ t', t ≤ t' ∧ goes (run b choice t).bridge.state (run b choice t') (choice t') = true := by
  obtain ⟨done, hphase⟩ := run_phase b choice t
  have hstb := hphase.moore.stb
  cases hs : (run b choice t).bridge.state with
  | writeAxiValid => exact hans.wvalid t hs
  | writeWbAck =>
    rw [hs] at hstb
    exact hans.ack t hstb
  | writeResp => exact hans.bready t (by rw [Bridge.bvalid, hs]; rfl)
  | readWbAck =>
    rw [hs] at hstb
    exact hans.ack t hstb
  | readAxiReady => exact hans.rready t (by rw [Bridge.rvalid, hs]; rfl)
  | idle => exact ⟨t, Nat.le_refl t, rfl⟩
  | latchWriteAddress => exact ⟨t, Nat.le_refl t, rfl⟩
  | writeAxiReady => exact ⟨t, Nat.le_refl t, rfl⟩
  | latchReadAddress => exact ⟨t, Nat.le_refl t, rfl⟩

/-- While a burst is being served, less and less of it remains. -/
theorem remaining_lt (hans : Answering (run b choice) choice) {t : Nat}
    (hbusy : (run b choice t).bridge.state ≠ .idle) :
    ∃ t', t < t' ∧ (run b choice t').remaining < (run b choice t).remaining := by
  refine waits_until (P := fun u => (run b choice u).bridge.state = (run b choice t).bridge.state ∧
    (run b choice u).remaining = (run b choice t).remaining) ?_ ?_ ⟨rfl, rfl⟩
    (goes_of_answering hans t)
  · intro u hu hno
    obtain ⟨done, hphase⟩ := run_phase b choice u
    rw [← hu.1, Bool.not_eq_true] at hno
    obtain ⟨hstate, hrem⟩ := stays hphase.moore hno
    exact ⟨hstate.trans hu.1, hrem.trans hu.2⟩
  · intro u hu hyes
    obtain ⟨done, hphase⟩ := run_phase b choice u
    rw [← hu.1] at hyes
    exact Nat.lt_of_lt_of_eq (hphase.advances (by rw [hu.1]; exact hbusy) hyes) hu.2

/-- Then it comes to its end. -/
theorem idle_again (hans : Answering (run b choice) choice) (t : Nat) :
    ∃ t', t ≤ t' ∧ (run b choice t').bridge.state = .idle := by
  have hzero : ∀ s : Sys n k, s.remaining = 0 ↔ s.bridge.state = .idle := by
    intro s
    rw [remaining]
    cases s.bridge.state <;> simp [budget]
  obtain ⟨t', ht', hend⟩ := reaches_zero (fun t => (run b choice t).remaining)
    (fun t hbusy => remaining_lt hans fun hidle => hbusy ((hzero _).mpr hidle)) t
  exact ⟨t', ht', (hzero _).mp hend⟩

/-- Nothing is accepted in idle, nor before the address. -/
theorem accepted_idle (hidle : s.bridge.state = .idle) (c : Choice n k) : s.accepted c = [] := by
  simp [accepted, Bridge.awready, Bridge.arready, hidle, taken]

/-- An idle bridge takes the write that is offered with its first data beat. -/
theorem starts_write (hidle : s.bridge.state = .idle) (c c' : Choice n k) {a : AxiAddr n k}
    (haw : offer s.awHeld c.aw = some a) (hw : (offer s.wHeld c.w).isSome = true) :
    ((s.step c).step c').requests = s.requests ++ [.write a] := by
  have hstate : (s.step c).bridge.state = .latchWriteAddress := by
    show s.bridge.nextState _ = _
    rw [Bridge.nextState, hidle, signals, haw, hw]
    rfl
  have hheld : (s.step c).awHeld = some a := by
    show keep _ s.bridge.awready = _
    rw [Bridge.awready, hidle, haw]
    rfl
  have haccepted : (s.step c).accepted c' = [.write a] := by
    simp [accepted, Bridge.awready, Bridge.arready, hstate, hheld, taken]
  rw [Sys.step, haccepted, Sys.step, accepted_idle hidle, List.append_nil]

/-- Else it takes the read that is offered. -/
theorem starts_read (hidle : s.bridge.state = .idle) (c c' : Choice n k) {a : AxiAddr n k}
    (hw : offer s.awHeld c.aw = none ∨ offer s.wHeld c.w = none)
    (har : offer s.arHeld c.ar = some a) :
    ((s.step c).step c').requests = s.requests ++ [.read a] := by
  have hstate : (s.step c).bridge.state = .latchReadAddress := by
    show s.bridge.nextState _ = _
    rw [Bridge.nextState, hidle, signals, har]
    rcases hw with hw | hw <;> simp [hw]
  have hheld : (s.step c).arHeld = some a := by
    show keep _ s.bridge.arready = _
    rw [Bridge.arready, hidle, har]
    rfl
  have haccepted : (s.step c).accepted c' = [.read a] := by
    simp [accepted, Bridge.awready, Bridge.arready, hstate, hheld, taken]
  rw [Sys.step, haccepted, Sys.step, accepted_idle hidle, List.append_nil]

end Sys

/-- What the bridge does with the bursts. -/
structure Serves (run : Nat → Sys n k) (choice : Nat → Choice n k) : Prop where
  /-- at any time the bursts have come one after the other, all but the last of them whole -/
  within : ∀ t, ∃ bs, Within (run t) bs
  /-- when the bridge is idle every burst is done -/
  idle : ∀ t, (run t).bridge.state = .idle → ∃ bs, Exact (run t) bs
  /-- a burst that is being served comes to its end -/
  ends : Answering run choice → ∀ t, ∃ t', t ≤ t' ∧ (run t').bridge.state = .idle
  /-- an idle bridge accepts a write whose first beat is offered, -/
  startsWrite : ∀ t a, (run t).bridge.state = .idle → offer (run t).awHeld (choice t).aw = some a →
    (offer (run t).wHeld (choice t).w).isSome = true →
    (run (t + 2)).requests = (run t).requests ++ [.write a]
  /-- else a read -/
  startsRead : ∀ t a, (run t).bridge.state = .idle →
    offer (run t).awHeld (choice t).aw = none ∨ offer (run t).wHeld (choice t).w = none →
    offer (run t).arHeld (choice t).ar = some a →
    (run (t + 2)).requests = (run t).requests ++ [.read a]

/--
**Every burst is served, one after the other.**

For all widths, whatever the registers held before the reset, for every master that keeps the
valid/ready rule and every behaviour of the Wishbone slave.
-/
theorem bursts_served (b : Bridge n k) (choice : Nat → Choice n k) :
    Serves (Sys.run b choice) choice where
  within t := by
    obtain ⟨done, h⟩ := Sys.run_phase b choice t
    exact h.within
  idle t hidle := by
    obtain ⟨done, h⟩ := Sys.run_phase b choice t
    exact ⟨done, h.exact hidle⟩
  ends hans t := Sys.idle_again hans t
  startsWrite t _ hidle haw hw := Sys.starts_write hidle (choice t) (choice (t + 1)) haw hw
  startsRead t _ hidle hw har := Sys.starts_read hidle (choice t) (choice (t + 1)) hw har

/-- A write of two beats to address 8, and a read of address 4 that waits for it.  Every third cycle
the slave acknowledges, and every second cycle the master takes what it is given. -/
def writeAndRead (t : Nat) : Choice 20 1 where
  aw := if t = 1 then some ⟨8, 1, 1⟩ else none
  ar := if t = 1 then some ⟨4, 0, 0⟩ else none
  w := some ⟨7, 0b0011⟩
  rready := t % 2 == 0
  bready := t % 2 == 0
  ack := t % 3 == 0
  dat := 9

/-- All that the bridge waits for comes. -/
theorem answering_writeAndRead (b : Bridge 20 1) :
    Answering (Sys.run b writeAndRead) writeAndRead where
  wvalid t _ := ⟨t, Nat.le_refl t, by cases hheld : (Sys.run b writeAndRead t).wHeld <;> rfl⟩
  ack t _ := ⟨3 * t, by omega, by simp [writeAndRead]⟩
  rready t _ := ⟨2 * t, by omega, by simp [writeAndRead]⟩
  bready t _ := ⟨2 * t, by omega, by simp [writeAndRead]⟩

example : (Sys.run ⟨.idle, false, false, 0, 0, 0, 0, 0, 0, 0, 0, false⟩ writeAndRead 24).accesses
    = [.write 8 0b0011 7, .write 12 0b0011 7, .read 4 0xf 9] := by
  decide +kernel

end MlibDevel.AxiWb
