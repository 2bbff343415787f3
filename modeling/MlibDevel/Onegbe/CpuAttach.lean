import MlibDevel.Lib.Octets
import Mathlib.Data.Fintype.Basic
import Mathlib.Tactic.FinCases

/-!
# The registers of the CPU (`gbe_cpu_attach_wb.v`)

The CPU reads and writes them over Wishbone, with an enable for each byte.  An access is answered in
the next cycle: by then a write has been made, and a read sees the register through one multiplexer.
-/

namespace MlibDevel.Onegbe

open Lib

/-- The parameters of `gbe_cpu_attach_wb`. -/
structure CpuAttachParams where
  localMac : BitVec 48
  localIp : BitVec 32
  localPort : BitVec 16
  localGateway : BitVec 8
  localEnable : Bool
  cpuPromiscuous : Bool
  phyConfig : BitVec 32
  cpuTxEnable : Bool
  cpuRxEnable : Bool

/-- The registers of the Wishbone side. -/
structure CpuAttach where
  localMacReg : BitVec 48
  localIpReg : BitVec 32
  localGatewayReg : BitVec 32
  localEnableReg : Bool
  cpuPromiscuousReg : Bool
  localPortReg : BitVec 16
  phyControlReg : BitVec 64
  cpuRxSizeReg : BitVec 17
  cpuTxSizeReg : BitVec 17
  cpuTxReadyReg : Bool
  cpuRxAckReg : Bool
  cpuDataSrc : BitVec 8
  useArpData : Bool
  useTxData : Bool
  useRxData : Bool
  cpuWait : Bool
  cpuAckReg : Bool
  deriving DecidableEq, Repr

/-- The inputs in a cycle. -/
structure CpuAttachIn where
  wbRst : Bool
  wbStb : Bool
  wbCyc : Bool
  wbWe : Bool
  wbAdr : BitVec 32
  wbDat : BitVec 32
  wbSel : BitVec 4
  arpCacheRdData : BitVec 48
  cpuRxBufferRdData : BitVec 32
  cpuTxBufferRdData : BitVec 32
  cpuRxSize : BitVec 12
  cpuRxReady : Bool
  cpuTxDone : Bool
  deriving DecidableEq, Repr

/-- `REG_CORE_TYPE` to `REG_ARP_SIZE` -/
inductive Reg
  | coreType
  | bufferSize
  | wordLength
  | localMac1
  | localMac0
  | localIp
  | localGateway
  | localNetmask
  | localMulticastIp
  | localMulticastMask
  | bufferOcc
  | localEnable
  | localPort
  | phyStatus1
  | phyStatus0
  | phyControl1
  | phyControl0
  | arpSize
  | none
  deriving DecidableEq, Repr

/-- The register with a number. -/
def Reg.ofNumber (n : BitVec 8) : Reg :=
  match n.toNat with
  | 0 => .coreType
  | 1 => .bufferSize
  | 2 => .wordLength
  | 3 => .localMac1
  | 4 => .localMac0
  | 5 => .localIp
  | 6 => .localGateway
  | 7 => .localNetmask
  | 8 => .localMulticastIp
  | 9 => .localMulticastMask
  | 10 => .bufferOcc
  | 11 => .localEnable
  | 12 => .localPort
  | 13 => .phyStatus1
  | 14 => .phyStatus0
  | 15 => .phyControl1
  | 16 => .phyControl0
  | 17 => .arpSize
  | _ => .none

/-- An access of the CPU. -/
structure WbAccess where
  we : Bool
  adr : BitVec 32
  dat : BitVec 32
  sel : BitVec 4
  deriving DecidableEq, Repr

/-- `reg_addr[9:2]` -/
def WbAccess.number (a : WbAccess) : BitVec 8 := a.adr.extractLsb' 2 8

/-- The register that is accessed. -/
def WbAccess.reg (a : WbAccess) : Reg := .ofNumber a.number

/-- The access on the bus. -/
def CpuAttachIn.access (i : CpuAttachIn) : Option WbAccess :=
  if i.wbStb && i.wbCyc then some ⟨i.wbWe, i.wbAdr, i.wbDat, i.wbSel⟩ else .none

/--
A register after a write: for each pair, a byte of the register and one of the bus, that byte is
written if its enable is set.
-/
def store {w : Nat} (x : BitVec w) (sel : BitVec 4) (din : BitVec 32) (lanes : List (Nat × Nat)) :
    BitVec w :=
  lanes.foldl (fun x lane => if sel.getLsbD lane.2 then setByte x lane.1 (byte din lane.2) else x) x

namespace CpuAttach

/-- The strobes, and what the receiver and the transmitter do to the registers. -/
def hwEvents (s : CpuAttach) (i : CpuAttachIn) : CpuAttach :=
  { s with
    cpuAckReg := false
    useArpData := false
    useTxData := false
    useRxData := false
    cpuTxSizeReg := if i.cpuTxDone then 0 else s.cpuTxSizeReg
    cpuTxReadyReg := if i.cpuTxDone then false else s.cpuTxReadyReg
    cpuRxAckReg := if s.cpuRxSizeReg == 0 then i.cpuRxReady else s.cpuRxAckReg
    cpuRxSizeReg :=
      if i.cpuRxReady && !s.cpuRxAckReg then i.cpuRxSize.setWidth 17 else s.cpuRxSizeReg }

/-- `cpu_rst` -/
def reset (p : CpuAttachParams) (s : CpuAttach) : CpuAttach :=
  { s with
    cpuRxSizeReg := 0
    cpuTxReadyReg := false
    cpuDataSrc := 0
    localMacReg := p.localMac
    localIpReg := p.localIp
    localGatewayReg := p.localGateway.setWidth 32
    localPortReg := p.localPort
    localEnableReg := p.localEnable
    cpuTxSizeReg := 0
    cpuRxAckReg := false
    phyControlReg := s.phyControlReg.extractLsb' 32 32 ++ p.phyConfig
    cpuWait := false
    cpuPromiscuousReg := p.cpuPromiscuous }

/-- The writable registers. -/
def writeReg (s : CpuAttach) (r : Reg) (sel : BitVec 4) (din : BitVec 32) : CpuAttach :=
  match r with
  | .localMac1 => { s with localMacReg := store s.localMacReg sel din [(4, 0), (5, 1)] }
  | .localMac0 =>
    { s with localMacReg := store s.localMacReg sel din [(0, 0), (1, 1), (2, 2), (3, 3)] }
  | .localGateway => { s with localGatewayReg := store s.localGatewayReg sel din [(0, 0)] }
  | .localIp => { s with localIpReg := store s.localIpReg sel din [(0, 0), (1, 1), (2, 2), (3, 3)] }
  | .bufferOcc =>
    { s with
      cpuRxSizeReg := store s.cpuRxSizeReg sel din [(0, 0), (1, 1)]
      cpuTxSizeReg := store s.cpuTxSizeReg sel din [(0, 2), (1, 3)]
      cpuTxReadyReg := if sel.getLsbD 2 then true else s.cpuTxReadyReg }
  | .localEnable =>
    { s with
      localEnableReg := if sel.getLsbD 0 then din.getLsbD 0 else s.localEnableReg
      cpuPromiscuousReg := if sel.getLsbD 1 then din.getLsbD 8 else s.cpuPromiscuousReg }
  | .localPort => { s with localPortReg := store s.localPortReg sel din [(0, 0), (1, 1)] }
  | .phyControl0 =>
    { s with phyControlReg := store s.phyControlReg sel din [(0, 0), (1, 1), (2, 2), (3, 3)] }
  | .phyControl1 =>
    { s with phyControlReg := store s.phyControlReg sel din [(4, 0), (5, 1), (6, 2), (7, 3)] }
  | _ => s

/-- The addresses of the registers, the ARP cache and the buffers. -/
def inRange (adr : BitVec 32) (offset high : Nat) : Bool :=
  decide (offset ≤ adr.toNat) && decide (adr.toNat ≤ high)

/-- An access in the cycle in which it is accepted. -/
def accept (s : CpuAttach) (a : WbAccess) : CpuAttach :=
  let s := { s with cpuAckReg := true }
  let s :=
    if inRange a.adr 0x1000 0x3FFF then
      if a.we then { s with cpuAckReg := false, cpuWait := true } else { s with useArpData := true }
    else s
  let s := if inRange a.adr 0x8000 0xBFFF && !a.we then { s with useRxData := true } else s
  let s :=
    if inRange a.adr 0x4000 0x7FFF then
      if a.we then { s with cpuAckReg := false, cpuWait := true } else { s with useTxData := true }
    else s
  if inRange a.adr 0x0000 0x0FFF then
    let s := { s with cpuDataSrc := a.number }
    if a.we then s.writeReg a.reg a.sel a.dat else s
  else s

/-- `always @(posedge cpu_clk)` -/
def edge (p : CpuAttachParams) (s : CpuAttach) (i : CpuAttachIn) : CpuAttach :=
  let t := s.hwEvents i
  if i.wbRst then t.reset p
  else if s.cpuWait then { t with cpuWait := false, cpuAckReg := true }
  else
    match i.access with
    | some a => if s.cpuAckReg then t else t.accept a
    | .none => t

/-- `cpu_data_int` -/
def cpuDataInt (p : CpuAttachParams) (s : CpuAttach) : BitVec 32 :=
  match Reg.ofNumber s.cpuDataSrc with
  | .coreType =>
    0#7 ++ BitVec.ofBool p.cpuTxEnable ++ 0#7 ++ BitVec.ofBool p.cpuRxEnable ++ 2#8 ++ 1#8
  | .bufferSize => 2048#16 ++ 2048#16
  | .wordLength => 8#16 ++ 1#16
  | .localMac1 => 0#16 ++ s.localMacReg.extractLsb' 32 16
  | .localMac0 => s.localMacReg.extractLsb' 0 32
  | .localIp => s.localIpReg
  | .localGateway => s.localGatewayReg
  | .localMulticastIp => 0
  | .localMulticastMask => 0
  -- both sizes have 17 bits, so the two highest of the 34 are lost
  | .bufferOcc => (s.cpuTxSizeReg ++ s.cpuRxSizeReg).setWidth 32
  | .localEnable =>
    0#16 ++ 0#7 ++ BitVec.ofBool s.cpuPromiscuousReg ++ 0#7 ++ BitVec.ofBool s.localEnableReg
  | .localPort => 0#16 ++ s.localPortReg
  | .phyStatus1 => 0
  | .phyStatus0 => 1
  | .phyControl1 => s.phyControlReg.extractLsb' 32 32
  | .phyControl0 => s.phyControlReg.extractLsb' 0 32
  | .arpSize => 256
  | _ => 0

/-- `cpu_dout` -/
def cpuDout (p : CpuAttachParams) (s : CpuAttach) (i : CpuAttachIn) : BitVec 32 :=
  if s.useArpData then
    if (i.wbAdr - 0x1000).getLsbD 2 then i.arpCacheRdData.extractLsb' 0 32
    else 0#16 ++ i.arpCacheRdData.extractLsb' 32 16
  else if s.useTxData then i.cpuTxBufferRdData
  else if s.useRxData then i.cpuRxBufferRdData
  else s.cpuDataInt p

end CpuAttach

/-! ## The registers as a memory -/

/-- A byte for each register and each byte enable. -/
abbrev RegMem := Reg → Fin 4 → BitVec 8

namespace Reg

/-- The bits of a byte that are implemented. -/
def implemented : RegMem
  | .localMac1, k => if k.val < 2 then 0xff else 0
  | .localMac0, _ => 0xff
  | .localIp, _ => 0xff
  | .localGateway, k => if k.val < 1 then 0xff else 0
  | .bufferOcc, _ => 0xff
  | .localEnable, k => if k.val < 2 then 0x01 else 0
  | .localPort, k => if k.val < 2 then 0xff else 0
  | .phyControl1, _ => 0xff
  | .phyControl0, _ => 0xff
  | _, _ => 0

end Reg

namespace CpuAttach

/-- What the registers hold, in the layout that software uses. -/
def held (s : CpuAttach) : RegMem
  | .localMac1, k => if k.val < 2 then byte s.localMacReg (4 + k) else 0
  | .localMac0, k => byte s.localMacReg k
  | .localIp, k => byte s.localIpReg k
  | .localGateway, k => if k.val < 1 then byte s.localGatewayReg 0 else 0
  | .bufferOcc, k => if k.val < 2 then byte s.cpuRxSizeReg k else byte s.cpuTxSizeReg (k - 2)
  | .localEnable, k =>
    if k.val = 0 then (BitVec.ofBool s.localEnableReg).setWidth 8
    else if k.val = 1 then (BitVec.ofBool s.cpuPromiscuousReg).setWidth 8
    else 0
  | .localPort, k => if k.val < 2 then byte s.localPortReg k else 0
  | .phyControl1, k => byte s.phyControlReg (4 + k)
  | .phyControl0, k => byte s.phyControlReg k
  | _, _ => 0

end CpuAttach

namespace RegMem

/-- The memory after an access: a write changes the enabled bytes of its register. -/
def apply (m : RegMem) (a : WbAccess) : RegMem := fun r k =>
  if a.we ∧ r = a.reg ∧ a.sel.getLsbD k then byte a.dat k &&& Reg.implemented r k else m r k

/-- What a read returns is what the memory holds. -/
def Reads (m : RegMem) (r : Reg) (d : BitVec 32) : Prop :=
  ∀ k : Fin 4, byte d k &&& Reg.implemented r k = m r k

end RegMem

namespace CpuAttach

variable {s : CpuAttach} {sel : BitVec 4} {din : BitVec 32}

/-! ## Writes -/

theorem store_nil {w : Nat} (x : BitVec w) : store x sel din [] = x := rfl

theorem store_cons {w : Nat} (x : BitVec w) (lane : Nat × Nat) (lanes : List (Nat × Nat)) :
    store x sel din (lane :: lanes)
      = store (if sel.getLsbD lane.2 then setByte x lane.1 (byte din lane.2) else x)
        sel din lanes :=
  rfl

/-- The other bytes are left alone. -/
theorem byte_lane {w : Nat} (x : BitVec w) (b : BitVec 8) {i : Nat} (hi : 8 * i + 8 ≤ w) (en : Bool)
    (k : Nat) :
    byte (if en then setByte x i b else x) k = if en = true ∧ k = i then b else byte x k := by
  by_cases hen : en = true
  · rw [if_pos hen, byte_setByte x b hi]
    simp [hen]
  · rw [if_neg hen, if_neg fun h => hen h.1]

/-- A bit of the bus, as a byte. -/
theorem setWidth_ofBool (din : BitVec 32) (k : Nat) :
    (BitVec.ofBool (din.getLsbD (8 * k))).setWidth 8 = byte din k &&& 0x01 := by
  ext j hj
  have hone : (0x01 : BitVec 8)[j] = decide (j = 0) := by
    rw [← BitVec.getLsbD_eq_getElem, show (0x01 : BitVec 8) = 1#8 from rfl, BitVec.getLsbD_one]
    simp
  rw [BitVec.getElem_and, hone, byte, BitVec.getElem_extractLsb', BitVec.getElem_setWidth,
    BitVec.getLsbD_ofBool]
  by_cases hzero : j = 0
  · subst hzero
    simp
  · simp [hzero]

/-- A write leaves the other registers alone. -/
theorem held_writeReg_of_ne {r q : Reg} (hne : q ≠ r) (k : Fin 4) :
    (s.writeReg r sel din).held q k = s.held q k := by
  have hmac1 : k.val < 2 → byte (store s.localMacReg sel din [(0, 0), (1, 1), (2, 2), (3, 3)])
      (4 + k) = byte s.localMacReg (4 + k) := by
    intro hk
    simp [store_cons, store_nil, byte_lane, show ¬4 + k.val = 1 by omega,
      show ¬4 + k.val = 2 by omega, show ¬4 + k.val = 3 by omega]
  have hmac0 : byte (store s.localMacReg sel din [(4, 0), (5, 1)]) k = byte s.localMacReg k := by
    simp [store_cons, store_nil, byte_lane, show ¬k.val = 4 by omega, show ¬k.val = 5 by omega]
  have hphy1 : byte (store s.phyControlReg sel din [(0, 0), (1, 1), (2, 2), (3, 3)]) (4 + k)
      = byte s.phyControlReg (4 + k) := by
    simp [store_cons, store_nil, byte_lane, show ¬4 + k.val = 1 by omega,
      show ¬4 + k.val = 2 by omega, show ¬4 + k.val = 3 by omega]
  have hphy0 : byte (store s.phyControlReg sel din [(4, 0), (5, 1), (6, 2), (7, 3)]) k
      = byte s.phyControlReg k := by
    simp [store_cons, store_nil, byte_lane, show ¬k.val = 4 by omega, show ¬k.val = 5 by omega,
      show ¬k.val = 6 by omega, show ¬k.val = 7 by omega]
  cases r with
  | localMac1 =>
    cases q
    case localMac1 => exact absurd rfl hne
    case localMac0 => exact hmac0
    all_goals rfl
  | localMac0 =>
    cases q
    case localMac0 => exact absurd rfl hne
    case localMac1 =>
      by_cases hk : k.val < 2
      · exact (if_pos hk).trans ((hmac1 hk).trans (if_pos hk).symm)
      · exact (if_neg hk).trans (if_neg hk).symm
    all_goals rfl
  | phyControl1 =>
    cases q
    case phyControl1 => exact absurd rfl hne
    case phyControl0 => exact hphy0
    all_goals rfl
  | phyControl0 =>
    cases q
    case phyControl0 => exact absurd rfl hne
    case phyControl1 => exact hphy1
    all_goals rfl
  | _ => cases q <;> first | rfl | exact absurd rfl hne

/-- A write changes the enabled bytes of its register, where they are implemented. -/
theorem held_writeReg_self (r : Reg) (k : Fin 4) :
    (s.writeReg r sel din).held r k
      = if sel.getLsbD k then byte din k &&& Reg.implemented r k else s.held r k := by
  have hones : ∀ b : BitVec 8, b &&& 255#8 = b := fun b => BitVec.and_allOnes
  have hbit0 := setWidth_ofBool din 0
  have hbit1 := setWidth_ofBool din 1
  cases r with
  | localEnable =>
    fin_cases k
    · show (BitVec.ofBool (if sel.getLsbD 0 then din.getLsbD 0 else s.localEnableReg)).setWidth 8 =
        _
      by_cases hsel : sel.getLsbD 0 = true
      · rw [if_pos hsel]
        exact hbit0.trans (if_pos hsel).symm
      · rw [if_neg hsel]
        exact (if_neg hsel).symm
    · show (BitVec.ofBool (if sel.getLsbD 1 then din.getLsbD 8 else s.cpuPromiscuousReg)).setWidth 8
        = _
      by_cases hsel : sel.getLsbD 1 = true
      · rw [if_pos hsel]
        exact hbit1.trans (if_pos hsel).symm
      · rw [if_neg hsel]
        exact (if_neg hsel).symm
    · simp [held, Reg.implemented]
    · simp [held, Reg.implemented]
  | _ =>
    fin_cases k <;>
      simp [writeReg, held, Reg.implemented, store_cons, store_nil, byte_lane, hones]

/-! ## Reads -/

theorem byte_extract {w n a k : Nat} (x : BitVec w) (hk : 8 * k + 8 ≤ n) :
    byte (x.extractLsb' (8 * a) n) k = byte x (a + k) := by
  ext j hj
  simp only [byte, BitVec.getElem_extractLsb', BitVec.getLsbD_extractLsb']
  rw [decide_eq_true (show 8 * k + j < n by omega), Bool.true_and, Nat.mul_add, Nat.add_assoc]

theorem byte_append_low {m n k : Nat} (x : BitVec m) (y : BitVec n) (hk : 8 * k + 8 ≤ n) :
    byte (x ++ y) k = byte y k := by
  ext j hj
  simp only [byte, BitVec.getElem_extractLsb', BitVec.getLsbD_append]
  rw [if_pos (by omega)]

variable {p : CpuAttachParams} {r : Reg}

/-- A read of any other register returns what it holds. -/
theorem reads_of_ne (hsrc : Reg.ofNumber s.cpuDataSrc = r) (hne : r ≠ .bufferOcc) :
    RegMem.Reads s.held r (s.cpuDataInt p) := by
  have hones : ∀ b : BitVec 8, b &&& 255#8 = b := fun b => BitVec.and_allOnes
  intro k
  have hfour := k.isLt
  rw [cpuDataInt, hsrc]
  cases r with
  | bufferOcc => exact absurd rfl hne
  | localMac1 =>
    by_cases hk : k.val < 2
    · simp only [held, Reg.implemented, hk, if_true]
      rw [byte_append_low _ _ (by omega), byte_extract (a := 4) _ (by omega)]
      exact hones _
    · simp [held, Reg.implemented, hk]
  | localMac0 =>
    refine (hones _).trans ((byte_extract (a := 0) _ (by omega)).trans ?_)
    rw [Nat.zero_add]
    rfl
  | localIp => exact hones _
  | localGateway =>
    by_cases hk : k.val < 1
    · have hzero : k.val = 0 := by omega
      simp only [held, Reg.implemented, hzero]
      exact hones _
    · simp [held, Reg.implemented, hk]
  | localEnable =>
    simp only [held]
    generalize s.localEnableReg = enable
    generalize s.cpuPromiscuousReg = promiscuous
    revert enable promiscuous k
    decide
  | localPort =>
    by_cases hk : k.val < 2
    · simp only [held, Reg.implemented, hk, if_true]
      rw [byte_append_low _ _ (by omega)]
      exact hones _
    · simp [held, Reg.implemented, hk]
  | phyControl1 => exact (hones _).trans (byte_extract (a := 4) _ (by omega))
  | phyControl0 =>
    refine (hones _).trans ((byte_extract (a := 0) _ (by omega)).trans ?_)
    rw [Nat.zero_add]
    rfl
  | _ => exact BitVec.and_zero

/-- Of the sizes, a read returns the one of the transmitter at twice its value. -/
theorem reads_bufferOcc (hsrc : Reg.ofNumber s.cpuDataSrc = .bufferOcc)
    (htx : s.cpuTxSizeReg.toNat < 65536) (hrx : s.cpuRxSizeReg.toNat < 65536) :
    RegMem.Reads s.held .bufferOcc (s.cpuDataInt p) ↔ s.cpuTxSizeReg = 0 := by
  have hones : ∀ b : BitVec 8, b &&& 255#8 = b := fun b => BitVec.and_allOnes
  have hbyte : ∀ {w : Nat} (x : BitVec w) (k : Nat),
      (byte x k).toNat = x.toNat / 2 ^ (8 * k) % 256 := by
    intro w x k
    rw [byte, BitVec.extractLsb'_toNat, Nat.shiftRight_eq_div_pow]
  have hdata : (s.cpuDataInt p).toNat
      = (s.cpuTxSizeReg.toNat * 131072 + s.cpuRxSizeReg.toNat) % 4294967296 := by
    rw [cpuDataInt, hsrc, BitVec.toNat_setWidth, BitVec.toNat_append, Nat.shiftLeft_eq,
      ← Nat.shiftLeft_eq, ← Nat.shiftLeft_add_eq_or_of_lt s.cpuRxSizeReg.isLt, Nat.shiftLeft_eq]
  constructor
  · intro h
    have h2 := congrArg BitVec.toNat ((hones _).symm.trans (h 2))
    have h3 := congrArg BitVec.toNat ((hones _).symm.trans (h 3))
    simp only [held] at h2 h3
    rw [hbyte, hdata, if_neg (by decide), hbyte] at h2 h3
    refine BitVec.eq_of_toNat_eq ?_
    simp at h2 h3 ⊢
    omega
  · intro hzero k
    refine (hones _).trans (BitVec.eq_of_toNat_eq ?_)
    rw [hbyte, hdata, hzero]
    fin_cases k <;> simp [held, hbyte, hzero] <;> omega

/-! ## The edges -/

variable {i : CpuAttachIn} {a : WbAccess}

/-- No frame is received, none has been sent, and there is no reset. -/
def Quiet (i : CpuAttachIn) : Prop :=
  i.wbRst = false ∧ i.cpuRxReady = false ∧ i.cpuTxDone = false

/-- What no write touches. -/
structure Steady (s : CpuAttach) : Prop where
  wait : s.cpuWait = false
  sources : s.useArpData = false ∧ s.useTxData = false ∧ s.useRxData = false
  txSize : s.cpuTxSizeReg.getLsbD 16 = false
  rxSize : s.cpuRxSizeReg.getLsbD 16 = false

theorem hwEvents_held (hi : Quiet i) : (s.hwEvents i).held = s.held := by
  obtain ⟨-, hrx, htx⟩ := hi
  funext r k
  cases r <;> simp [hwEvents, held, hrx, htx]

theorem Steady.hwEvents (h : Steady s) (hi : Quiet i) : Steady (s.hwEvents i) := by
  obtain ⟨-, hrx, htx⟩ := hi
  refine ⟨h.wait, ⟨rfl, rfl, rfl⟩, ?_, ?_⟩
  · simp only [CpuAttach.hwEvents, htx]
    exact h.txSize
  · simp only [CpuAttach.hwEvents, hrx]
    exact h.rxSize

theorem getLsbD_store_16 (x : BitVec 17) (i j : Nat) :
    (store x sel din [(0, i), (1, j)]).getLsbD 16 = x.getLsbD 16 := by
  have hkeep : ∀ (y : BitVec 17) (b : BitVec 8), (setByte y 0 b).getLsbD 16 = y.getLsbD 16 ∧
      (setByte y 1 b).getLsbD 16 = y.getLsbD 16 :=
    fun y b => ⟨getLsbD_setByte y 0 b 16, getLsbD_setByte y 1 b 16⟩
  rw [store_cons, store_cons, store_nil]
  split_ifs
  · rw [(hkeep _ _).2, (hkeep _ _).1]
  · rw [(hkeep _ _).2]
  · rw [(hkeep _ _).1]
  · rfl

theorem Steady.writeReg (h : Steady s) (r : Reg) : Steady (s.writeReg r sel din) := by
  cases r with
  | bufferOcc =>
    exact ⟨h.wait, h.sources, (getLsbD_store_16 _ 2 3).trans h.txSize,
      (getLsbD_store_16 _ 0 1).trans h.rxSize⟩
  | _ => exact ⟨h.wait, h.sources, h.txSize, h.rxSize⟩

theorem writeReg_ack (r : Reg) : (s.writeReg r sel din).cpuAckReg = s.cpuAckReg ∧
    (s.writeReg r sel din).cpuDataSrc = s.cpuDataSrc := by
  cases r <;> exact ⟨rfl, rfl⟩

/-- An access of a register. -/
theorem accept_reg (h : Steady s) (hadr : a.adr.toNat ≤ 0x0FFF) :
    (s.accept a).held = s.held.apply a ∧ Steady (s.accept a) ∧ (s.accept a).cpuAckReg = true ∧
      (s.accept a).cpuDataSrc = a.number := by
  have harp : inRange a.adr 0x1000 0x3FFF = false := by simp [inRange]; omega
  have hrx : inRange a.adr 0x8000 0xBFFF = false := by simp [inRange]; omega
  have htx : inRange a.adr 0x4000 0x7FFF = false := by simp [inRange]; omega
  have hreg : inRange a.adr 0x0000 0x0FFF = true := by simp [inRange]; omega
  obtain ⟨t, hsteady, hheld, hack, hsrc, haccept⟩ : ∃ t : CpuAttach, Steady t ∧ t.held = s.held ∧
      t.cpuAckReg = true ∧ t.cpuDataSrc = a.number ∧
      s.accept a = if a.we then t.writeReg a.reg a.sel a.dat else t := by
    refine ⟨{ s with cpuAckReg := true, cpuDataSrc := a.number },
      ⟨h.wait, h.sources, h.txSize, h.rxSize⟩, ?_, rfl, rfl, ?_⟩
    · funext r k
      cases r <;> rfl
    · simp only [accept, harp, hrx, htx, hreg, Bool.false_and, Bool.false_eq_true,
        if_false, if_true]
  rw [haccept]
  by_cases hwe : a.we = true
  · rw [if_pos hwe]
    refine ⟨?_, hsteady.writeReg a.reg, (writeReg_ack _).1.trans hack,
      (writeReg_ack _).2.trans hsrc⟩
    funext r k
    rw [RegMem.apply, ← hheld]
    by_cases hr : r = a.reg
    · rw [hr, held_writeReg_self]
      by_cases hsel : a.sel.getLsbD k = true
      · rw [if_pos hsel, if_pos ⟨hwe, rfl, hsel⟩]
      · rw [if_neg hsel, if_neg fun hall => hsel hall.2.2]
    · rw [held_writeReg_of_ne hr, if_neg fun hall => hr hall.2.1]
  · rw [if_neg hwe]
    refine ⟨?_, hsteady, hack, hsrc⟩
    rw [hheld]
    funext r k
    rw [RegMem.apply, if_neg fun hall => hwe hall.1]

/-- A cycle without an access. -/
theorem edge_none (h : Steady s) (hi : Quiet i) (hnone : i.access = none ∨ s.cpuAckReg = true) :
    s.edge p i = s.hwEvents i := by
  simp only [edge, hi.1, h.wait, Bool.false_eq_true, if_false]
  rcases hnone with hnone | hack
  · rw [hnone]
  · rw [hack]
    split <;> rfl

/-- A cycle in which an access is made. -/
theorem edge_some (h : Steady s) (hi : Quiet i) (hsome : i.access = some a)
    (hack : s.cpuAckReg = false) (hadr : a.adr.toNat ≤ 0x0FFF) :
    (s.edge p i).held = s.held.apply a ∧ Steady (s.edge p i) ∧ (s.edge p i).cpuAckReg = true ∧
      (s.edge p i).cpuDataSrc = a.number := by
  have hedge : s.edge p i = (s.hwEvents i).accept a := by
    simp only [edge, hi.1, h.wait, Bool.false_eq_true, if_false, hsome, hack]
  have haccept := accept_reg (h.hwEvents hi) hadr
  rw [hwEvents_held hi] at haccept
  rw [hedge]
  exact haccept

end CpuAttach

end MlibDevel.Onegbe
