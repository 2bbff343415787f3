import MlibDevel.Onegbe.CpuAttach

/-!
# The accesses of the CPU (`gbe_cpu_attach_wb.v`)

The CPU holds an access until it is acknowledged.  As long as no frame comes or goes, its registers
are a memory in every run, except that a read returns the transmit size doubled
(`Resting.run_follows_iff`).
-/

namespace MlibDevel.Onegbe

open Lib

/-- The core, and the accesses made so far. -/
structure CpuWatch where
  core : CpuAttach
  /-- the access that waits for its acknowledgement -/
  pending : Option WbAccess
  /-- the accesses made -/
  presented : List WbAccess
  /-- the accesses acknowledged, with the data that the bus had then -/
  answered : List (WbAccess × BitVec 32)

namespace CpuWatch

/-- A clock cycle. -/
def step (p : CpuAttachParams) (w : CpuWatch) (i : CpuAttachIn) : CpuWatch where
  core := w.core.edge p i
  pending := if w.core.cpuAckReg then none else i.access
  presented := if w.pending.isNone then w.presented ++ i.access.toList else w.presented
  answered :=
    if w.core.cpuAckReg then w.answered ++ i.access.toList.map fun a => (a, w.core.cpuDout p i)
    else w.answered

/-- The state after some cycles. -/
def run (p : CpuAttachParams) (w : CpuWatch) (is : List CpuAttachIn) : CpuWatch :=
  is.foldl (step p) w

/-- The CPU makes accesses of registers, and holds each until it is acknowledged. -/
structure Orderly (w : CpuWatch) (i : CpuAttachIn) : Prop where
  quiet : CpuAttach.Quiet i
  held : ∀ a, w.pending = some a → i.access = some a
  register : ∀ a, i.access = some a → a.adr.toNat ≤ 0x0FFF

instance (w : CpuWatch) (i : CpuAttachIn) : Decidable (Orderly w i) :=
  decidable_of_iff ((i.wbRst = false ∧ i.cpuRxReady = false ∧ i.cpuTxDone = false) ∧
    (∀ a ∈ w.pending, i.access = some a) ∧ ∀ a ∈ i.access, a.adr.toNat ≤ 0x0FFF)
    ⟨fun h => ⟨h.1, h.2.1, h.2.2⟩, fun h => ⟨h.quiet, h.held, h.register⟩⟩

/-- What the CPU does in a run. -/
def AllOrderly (p : CpuAttachParams) : CpuWatch → List CpuAttachIn → Prop
  | _, [] => True
  | w, i :: is => Orderly w i ∧ AllOrderly p (w.step p i) is

instance allOrderlyDecidable (p : CpuAttachParams) : ∀ (w : CpuWatch) (is : List CpuAttachIn),
    Decidable (AllOrderly p w is)
  | _, [] => .isTrue trivial
  | w, i :: is =>
    have := allOrderlyDecidable p (w.step p i) is
    inferInstanceAs (Decidable (Orderly w i ∧ AllOrderly p (w.step p i) is))

/-- The memory after some accesses. -/
def memory (m : RegMem) (as : List WbAccess) : RegMem := as.foldl RegMem.apply m

/-- Each read returns what the memory holds after the accesses before it. -/
def ReadsRight : RegMem → List (WbAccess × BitVec 32) → Prop
  | _, [] => True
  | m, (a, d) :: rest => (a.we = false → m.Reads a.reg d) ∧ ReadsRight (m.apply a) rest

/-- Whenever the sizes are read, the two bytes of the transmit size are zero. -/
def TxSizeZero : RegMem → List WbAccess → Prop
  | _, [] => True
  | m, a :: rest =>
    (a.we = false → a.reg = .bufferOcc → m .bufferOcc 2 = 0 ∧ m .bufferOcc 3 = 0) ∧
      TxSizeZero (m.apply a) rest

variable {p : CpuAttachParams} {w : CpuWatch} {i : CpuAttachIn} {m : RegMem}

theorem readsRight_append (a : WbAccess) (d : BitVec 32) : ∀ (m : RegMem)
    (log : List (WbAccess × BitVec 32)), ReadsRight m (log ++ [(a, d)]) ↔
      ReadsRight m log ∧ (a.we = false → (memory m (log.map Prod.fst)).Reads a.reg d)
  | m, [] => by simp [ReadsRight, memory]
  | m, (b, e) :: log => by
    rw [List.cons_append, ReadsRight, readsRight_append a d (m.apply b) log, ReadsRight, and_assoc]
    rfl

theorem txSizeZero_append (a : WbAccess) : ∀ (m : RegMem) (as : List WbAccess),
    TxSizeZero m (as ++ [a]) ↔ TxSizeZero m as ∧ (a.we = false → a.reg = .bufferOcc →
      memory m as .bufferOcc 2 = 0 ∧ memory m as .bufferOcc 3 = 0)
  | m, [] => by simp [TxSizeZero, memory]
  | m, b :: as => by
    rw [List.cons_append, TxSizeZero, txSizeZero_append a (m.apply b) as, TxSizeZero, and_assoc]
    rfl

/-- The registers hold what the accesses have written, and each access is acknowledged once. -/
structure Follows (m : RegMem) (w : CpuWatch) : Prop where
  held : w.core.held = memory m w.presented
  acked : w.core.cpuAckReg = w.pending.isSome
  once : w.presented = w.answered.map Prod.fst ++ w.pending.toList

/-- What holds in every cycle of a run. -/
structure Serves (m : RegMem) (w : CpuWatch) : Prop where
  steady : w.core.Steady
  follows : Follows m w
  source : ∀ a, w.pending = some a → w.core.cpuDataSrc = a.number
  reads : ReadsRight m w.answered ↔ TxSizeZero m (w.answered.map Prod.fst)

theorem lt_of_getLsbD_16 {x : BitVec 17} (h : x.getLsbD 16 = false) : x.toNat < 65536 := by
  have hmsb := BitVec.toNat_lt_of_msb_false (x := x) h
  omega

/-- The transmit size is zero when its two bytes are. -/
theorem txSize_eq_zero_iff (h : w.core.Steady) :
    w.core.cpuTxSizeReg = 0 ↔ w.core.held .bufferOcc 2 = 0 ∧ w.core.held .bufferOcc 3 = 0 := by
  have hlt := lt_of_getLsbD_16 h.txSize
  have hbyte : ∀ k, (byte w.core.cpuTxSizeReg k).toNat
      = w.core.cpuTxSizeReg.toNat / 2 ^ (8 * k) % 256 := by
    intro k
    rw [byte, BitVec.extractLsb'_toNat, Nat.shiftRight_eq_div_pow]
  show _ ↔ byte w.core.cpuTxSizeReg 0 = 0 ∧ byte w.core.cpuTxSizeReg 1 = 0
  rw [← BitVec.toNat_inj, ← BitVec.toNat_inj, ← BitVec.toNat_inj, hbyte, hbyte]
  simp
  omega

/-- A read returns what the registers hold, except for the transmit size. -/
theorem Serves.read_iff (h : Serves m w) {a : WbAccess} (hpending : w.pending = some a) :
    w.core.held.Reads a.reg (w.core.cpuDout p i) ↔
      (a.reg = .bufferOcc → w.core.held .bufferOcc 2 = 0 ∧ w.core.held .bufferOcc 3 = 0) := by
  obtain ⟨harp, htx, hrx⟩ := h.steady.sources
  have hdout : w.core.cpuDout p i = w.core.cpuDataInt p := by
    simp only [CpuAttach.cpuDout, harp, htx, hrx, Bool.false_eq_true, if_false]
  have hsrc : Reg.ofNumber w.core.cpuDataSrc = a.reg := congrArg Reg.ofNumber (h.source a hpending)
  rw [hdout]
  by_cases hreg : a.reg = .bufferOcc
  · rw [hreg] at hsrc
    rw [hreg, CpuAttach.reads_bufferOcc hsrc (lt_of_getLsbD_16 h.steady.txSize)
      (lt_of_getLsbD_16 h.steady.rxSize), txSize_eq_zero_iff h.steady]
    exact ⟨fun hzero _ => hzero, fun hzero => hzero rfl⟩
  · exact ⟨fun _ hocc => absurd hocc hreg, fun _ => CpuAttach.reads_of_ne hsrc hreg⟩

/-- A cycle in which an access is acknowledged. -/
theorem Serves.acknowledge (h : Serves m w) (hi : Orderly w i) {a : WbAccess}
    (hpending : w.pending = some a) : Serves m (w.step p i) := by
  have hack : w.core.cpuAckReg = true := by rw [h.follows.acked, hpending]; rfl
  have haccess := hi.held a hpending
  have hcore : (w.step p i).core = w.core.hwEvents i :=
    CpuAttach.edge_none h.steady hi.quiet (.inr hack)
  have hnone : (w.step p i).pending = none := by
    show (if w.core.cpuAckReg then none else _) = _
    rw [hack]
    rfl
  have hpresented : (w.step p i).presented = w.presented := by
    show (if w.pending.isNone then _ else w.presented) = _
    rw [hpending]
    rfl
  have hanswered : (w.step p i).answered = w.answered ++ [(a, w.core.cpuDout p i)] := by
    show (if w.core.cpuAckReg then w.answered ++ i.access.toList.map _ else _) = _
    rw [hack, haccess]
    rfl
  have honce : w.presented = w.answered.map Prod.fst ++ [a] := by
    rw [h.follows.once, hpending]
    rfl
  refine ⟨?_, ⟨?_, ?_, ?_⟩, ?_, ?_⟩
  · rw [hcore]
    exact h.steady.hwEvents hi.quiet
  · rw [hcore, hpresented, CpuAttach.hwEvents_held hi.quiet]
    exact h.follows.held
  · rw [hcore, hnone]
    rfl
  · rw [hpresented, hanswered, hnone, honce]
    simp
  · rw [hnone]
    exact fun b hb => absurd hb (Option.some_ne_none b).symm
  · rw [hanswered, List.map_append, readsRight_append, h.reads, List.map_singleton,
      txSizeZero_append]
    refine and_congr_right fun _ => imp_congr_right fun hread => ?_
    -- a read changes nothing, so the registers hold what they held before it
    have hbefore : memory m (w.answered.map Prod.fst) = w.core.held := by
      rw [h.follows.held, honce, memory, memory, List.foldl_append]
      funext r k
      rw [List.foldl_cons, List.foldl_nil, RegMem.apply, hread, if_neg fun hall =>
        Bool.false_ne_true hall.1]
    rw [hbefore]
    exact h.read_iff hpending

/-- A cycle in which none waits. -/
theorem Serves.present (h : Serves m w) (hi : Orderly w i) (hpending : w.pending = none) :
    Serves m (w.step p i) := by
  have hack : w.core.cpuAckReg = false := by rw [h.follows.acked, hpending]; rfl
  have hnext : (w.step p i).pending = i.access := by
    show (if w.core.cpuAckReg then none else i.access) = _
    rw [hack]
    rfl
  have hpresented : (w.step p i).presented = w.presented ++ i.access.toList := by
    show (if w.pending.isNone then _ else w.presented) = _
    rw [hpending]
    rfl
  have hanswered : (w.step p i).answered = w.answered := by
    show (if w.core.cpuAckReg then _ else w.answered) = _
    rw [hack]
    rfl
  have honce : (w.step p i).presented
      = (w.step p i).answered.map Prod.fst ++ (w.step p i).pending.toList := by
    rw [hpresented, hanswered, hnext, h.follows.once, hpending, Option.toList_none, List.append_nil]
  have hreads : ReadsRight m (w.step p i).answered ↔
      TxSizeZero m ((w.step p i).answered.map Prod.fst) := by
    rw [hanswered]
    exact h.reads
  cases haccess : i.access with
  | none =>
    have hcore : (w.step p i).core = w.core.hwEvents i :=
      CpuAttach.edge_none h.steady hi.quiet (.inl haccess)
    refine ⟨?_, ⟨?_, ?_, honce⟩, ?_, hreads⟩
    · rw [hcore]
      exact h.steady.hwEvents hi.quiet
    · rw [hcore, hpresented, haccess, CpuAttach.hwEvents_held hi.quiet, Option.toList_none,
        List.append_nil]
      exact h.follows.held
    · rw [hcore, hnext, haccess]
      rfl
    · rw [hnext, haccess]
      exact fun b hb => absurd hb (Option.some_ne_none b).symm
  | some a =>
    obtain ⟨hheld, hsteady, hacked, hsrc⟩ :=
      CpuAttach.edge_some (p := p) h.steady hi.quiet haccess hack (hi.register a haccess)
    refine ⟨hsteady, ⟨?_, ?_, honce⟩, ?_, hreads⟩
    · rw [hpresented, haccess, memory, Option.toList_some, List.foldl_append]
      exact hheld.trans (congrArg (RegMem.apply · a) h.follows.held)
    · rw [hnext, haccess]
      exact hacked
    · rw [hnext, haccess]
      exact fun b hb => hsrc.trans (congrArg WbAccess.number (Option.some.inj hb))

theorem Serves.step (h : Serves m w) (hi : Orderly w i) : Serves m (w.step p i) := by
  cases hpending : w.pending with
  | none => exact h.present hi hpending
  | some a => exact h.acknowledge hi hpending

theorem Serves.run : ∀ (is : List CpuAttachIn) (w : CpuWatch), Serves m w → AllOrderly p w is →
    Serves m (w.run p is)
  | [], _, h, _ => h
  | i :: is, w, h, hall => Serves.run is (w.step p i) (h.step hall.1) hall.2

/-- Before the first access. -/
structure Resting (w : CpuWatch) : Prop where
  steady : w.core.Steady
  ack : w.core.cpuAckReg = false
  pending : w.pending = none
  presented : w.presented = []
  answered : w.answered = []

/--
**The registers are a memory, but for the transmit size.**

In every run each access is acknowledged once, in the cycle after it is made, and the registers hold
what has been written to them.  Its reads return that if and only if the transmit size is zero
whenever the sizes are read.
-/
theorem Resting.run_follows_iff (h : Resting w) (is : List CpuAttachIn) (hall : AllOrderly p w is) :
    (Follows w.core.held (w.run p is) ∧ ReadsRight w.core.held (w.run p is).answered) ↔
      TxSizeZero w.core.held ((w.run p is).answered.map Prod.fst) := by
  have hstart : Serves w.core.held w := by
    refine ⟨h.steady, ⟨?_, ?_, ?_⟩, fun a ha => ?_, ?_⟩
    · rw [h.presented]
      rfl
    · rw [h.ack, h.pending]
      rfl
    · rw [h.presented, h.answered, h.pending]
      rfl
    · exact absurd (h.pending.symm.trans ha) (Option.some_ne_none a).symm
    · rw [h.answered]
      exact Iff.rfl
  have hserves := Serves.run is w hstart hall
  rw [← hserves.reads]
  exact ⟨fun hboth => hboth.2, fun hreads => ⟨hserves.follows, hreads⟩⟩

/-! ## Two runs -/

/-- A cycle in which the CPU makes an access, or not. -/
def bus : Option WbAccess → CpuAttachIn
  | none => ⟨false, false, false, false, 0, 0, 0, 0, 0, 0, 0, false, false⟩
  | some a => ⟨false, true, true, a.we, a.adr, a.dat, a.sel, 0, 0, 0, 0, false, false⟩

/-- The parameters of a core. -/
def ourCore : CpuAttachParams :=
  ⟨0x0202_0a00_0001, 0x0a00_0001, 10000, 1, true, false, 0, true, true⟩

/-- The core after a reset. -/
def started : CpuWatch where
  core :=
    ⟨0x0202_0a00_0001, 0x0a00_0001, 1, true, false, 10000, 0, 0, 0, false, false, 0, false, false,
      false, false, false⟩
  pending := none
  presented := []
  answered := []

/-- A read of the same register. -/
def readBack (a : WbAccess) : WbAccess := { a with we := false }

/-- The access `a`, and then a read of the same register. -/
def thenRead (a : WbAccess) : List CpuAttachIn :=
  [bus (some a), bus (some a), bus (some (readBack a)), bus (some (readBack a)), bus none]

/-- The write of an upper byte of the MAC address. -/
def writeMac : WbAccess := ⟨true, 0x0c, 0xabcd_ef12, 0b0010⟩

/-- The write of a transmit size of one word. -/
def writeTxSize : WbAccess := ⟨true, 0x28, 0x0001_0000, 0b1100⟩

theorem started_resting : Resting started := by
  refine ⟨⟨rfl, ⟨rfl, rfl, rfl⟩, ?_, ?_⟩, rfl, rfl, rfl, rfl⟩ <;> exact BitVec.getLsbD_zero

/-- A write of the MAC address is read back. -/
theorem run_follows_iff_writeMac :
    (Follows started.core.held (started.run ourCore (thenRead writeMac)) ∧
        ReadsRight started.core.held (started.run ourCore (thenRead writeMac)).answered) ↔
      TxSizeZero started.core.held
        ((started.run ourCore (thenRead writeMac)).answered.map Prod.fst) :=
  started_resting.run_follows_iff _ (by decide)

example : (started.run ourCore (thenRead writeMac)).answered.map Prod.snd = [0xef02, 0xef02] := by
  decide

/-- A transmit size of one is read as two. -/
theorem writeTxSize_read_twice :
    Resting started ∧ AllOrderly ourCore started (thenRead writeTxSize) ∧
      ¬(Follows started.core.held (started.run ourCore (thenRead writeTxSize)) ∧
        ReadsRight started.core.held (started.run ourCore (thenRead writeTxSize)).answered) := by
  refine ⟨started_resting, by decide, fun hboth => ?_⟩
  have hlog : (started.run ourCore (thenRead writeTxSize)).answered
      = [(writeTxSize, 0x0002_0000), (readBack writeTxSize, 0x0002_0000)] := by decide
  have hreads := hboth.2
  rw [hlog] at hreads
  exact absurd (hreads.2.1 rfl 2) (by decide)

end CpuWatch

end MlibDevel.Onegbe
