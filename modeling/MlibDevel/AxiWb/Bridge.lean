import MlibDevel.Lib.Cycles
import MlibDevel.Lib.ValidReady

/-!
# From AXI bursts to Wishbone accesses (`axi_slave_wishbone_classic_master.vhd`)

One state machine takes a burst of either direction, and makes a Wishbone access for each of its
beats.  The address, the count of beats, the strobes, the data and the write enable are registers of
processes of their own.

`Sys` carries besides the registers what passes the interfaces: the bursts requested, the accesses
made, and the beats and the responses given.
-/

namespace MlibDevel.AxiWb

open Lib

/-- A beat of an address channel. -/
structure AxiAddr (n k : Nat) where
  addr : BitVec n
  len : BitVec 8
  id : BitVec k
  deriving DecidableEq, Repr

/-- A beat of the write data channel. -/
structure WBeat where
  data : BitVec 32
  strb : BitVec 4
  deriving DecidableEq, Repr

/-- A beat of the read data channel. -/
structure RBeat (k : Nat) where
  data : BitVec 32
  last : Bool
  id : BitVec k
  deriving DecidableEq, Repr

/-- `T_AXI_BRIDGE_STATE` -/
inductive State
  | idle
  | latchWriteAddress
  | writeAxiValid
  | writeWbAck
  | writeAxiReady
  | writeResp
  | latchReadAddress
  | readWbAck
  | readAxiReady
  deriving DecidableEq, Repr

/-- The registers, the outputs among them. -/
structure Bridge (n k : Nat) where
  state : State
  cycO : Bool
  stbO : Bool
  currentAddress : BitVec n
  burstLength : BitVec 8
  burstCount : BitVec 8
  bid : BitVec k
  rid : BitVec k
  rdata : BitVec 32
  selO : BitVec 4
  datO : BitVec 32
  weO : Bool
  deriving DecidableEq, Repr

/-- The signals of the master and of the Wishbone slave. -/
structure BridgeIn (n k : Nat) where
  awvalid : Bool
  aw : AxiAddr n k
  wvalid : Bool
  w : WBeat
  bready : Bool
  arvalid : Bool
  ar : AxiAddr n k
  rready : Bool
  ackI : Bool
  datI : BitVec 32
  deriving DecidableEq, Repr

namespace Bridge

variable {n k : Nat}

/-- `current_axi_bridge_state` after a clock edge. -/
def nextState (s : Bridge n k) (i : BridgeIn n k) : State :=
  match s.state with
  | .idle =>
    if i.awvalid && i.wvalid then .latchWriteAddress
    else if i.arvalid then .latchReadAddress
    else .idle
  | .latchWriteAddress => .writeAxiValid
  | .writeAxiValid => if i.wvalid then .writeWbAck else .writeAxiValid
  | .writeWbAck => if i.ackI then .writeAxiReady else .writeWbAck
  | .writeAxiReady => if s.burstLength == s.burstCount then .writeResp else .writeAxiValid
  | .writeResp => if i.bready then .idle else .writeResp
  | .latchReadAddress => .readWbAck
  | .readWbAck => if i.ackI then .readAxiReady else .readWbAck
  | .readAxiReady =>
    if i.rready then (if s.burstLength == s.burstCount then .idle else .readWbAck)
    else .readAxiReady

/-- `CYC_O` after a clock edge. -/
def nextCyc (s : Bridge n k) (i : BridgeIn n k) : Bool :=
  match s.state with
  | .latchWriteAddress => true
  | .writeAxiReady => if s.burstLength == s.burstCount then false else s.cycO
  | .latchReadAddress => true
  | .readAxiReady => if i.rready && s.burstLength == s.burstCount then false else s.cycO
  | _ => s.cycO

/-- `STB_O` after a clock edge. -/
def nextStb (s : Bridge n k) (i : BridgeIn n k) : Bool :=
  match s.state with
  | .writeAxiValid => if i.wvalid then true else s.stbO
  | .writeWbAck => if i.ackI then false else s.stbO
  | .latchReadAddress => true
  | .readWbAck => if i.ackI then false else s.stbO
  | .readAxiReady => if i.rready && s.burstLength != s.burstCount then true else s.stbO
  | _ => s.stbO

/-- `inc_current_address` and `inc_burst_count` -/
def inc (s : Bridge n k) (i : BridgeIn n k) : Bool :=
  s.state == .writeAxiReady || s.state == .readAxiReady && i.rready

/-- The states in which the strobes and the write enable are those of a write. -/
def writing (s : Bridge n k) : Bool :=
  s.state == .writeAxiValid || s.state == .writeWbAck || s.state == .writeAxiReady

/-- A rising edge of `S_AXI_ACLK`. -/
def edge (s : Bridge n k) (i : BridgeIn n k) : Bridge n k where
  state := s.nextState i
  cycO := s.nextCyc i
  stbO := s.nextStb i
  currentAddress :=
    if s.state == .latchWriteAddress then i.aw.addr
    else if s.state == .latchReadAddress then i.ar.addr
    else if s.inc i then s.currentAddress + BitVec.ofNat n 4
    else s.currentAddress
  burstLength :=
    if s.state == .latchWriteAddress then i.aw.len
    else if s.state == .latchReadAddress then i.ar.len
    else s.burstLength
  burstCount :=
    if s.state == .latchWriteAddress || s.state == .latchReadAddress then 0
    else if s.inc i then s.burstCount + 1
    else s.burstCount
  bid := if s.state == .latchWriteAddress then i.aw.id else s.bid
  rid := if s.state == .latchReadAddress then i.ar.id else s.rid
  rdata := if s.state == .readWbAck && i.ackI then i.datI else s.rdata
  selO := if s.writing then i.w.strb else 0xf
  datO := i.w.data
  weO := s.writing

/-- `S_AXI_ARESETN = '0'` -/
def reset (s : Bridge n k) : Bridge n k :=
  { s with
    state := .idle, cycO := false, stbO := false, currentAddress := 0, burstLength := 0,
    burstCount := 0 }

/-- `S_AXI_AWREADY` -/
def awready (s : Bridge n k) : Bool := s.state == .latchWriteAddress

/-- `S_AXI_ARREADY` -/
def arready (s : Bridge n k) : Bool := s.state == .latchReadAddress

/-- `S_AXI_WREADY` -/
def wready (s : Bridge n k) : Bool := s.state == .writeAxiReady

/-- `S_AXI_BVALID` -/
def bvalid (s : Bridge n k) : Bool := s.state == .writeResp

/-- `S_AXI_RVALID` -/
def rvalid (s : Bridge n k) : Bool := s.state == .readAxiReady

/-- `S_AXI_RLAST` -/
def rlast (s : Bridge n k) : Bool :=
  (s.state == .readWbAck || s.state == .readAxiReady) && s.burstCount == s.burstLength

end Bridge

/-! ## Runs -/

/-- An access on the Wishbone bus: a read with the data that came back. -/
inductive WbAccess (n : Nat)
  | write (adr : BitVec n) (sel : BitVec 4) (dat : BitVec 32)
  | read (adr : BitVec n) (sel : BitVec 4) (dat : BitVec 32)
  deriving DecidableEq, Repr

/-- A request on one of the address channels. -/
inductive Request (n k : Nat)
  | write (a : AxiAddr n k)
  | read (a : AxiAddr n k)
  deriving DecidableEq, Repr

/--
What the master and the Wishbone slave do in a cycle: what the channels of the master want to send
next, whether it takes responses, and how the slave answers.
-/
structure Choice (n k : Nat) where
  aw : Option (AxiAddr n k)
  ar : Option (AxiAddr n k)
  w : Option WBeat
  bready : Bool
  rready : Bool
  ack : Bool
  dat : BitVec 32
  deriving DecidableEq, Repr

/-- The bridge, what its master holds valid, and what has passed the interfaces. -/
structure Sys (n k : Nat) where
  bridge : Bridge n k
  awHeld : Option (AxiAddr n k)
  arHeld : Option (AxiAddr n k)
  wHeld : Option WBeat
  /-- the bursts accepted, of both directions -/
  requests : List (Request n k)
  /-- the accesses that the slave has acknowledged -/
  accesses : List (WbAccess n)
  /-- the data beats accepted -/
  wTaken : List WBeat
  /-- the read beats given -/
  rGiven : List (RBeat k)
  /-- the write responses given -/
  bGiven : List (BitVec k)
  deriving DecidableEq, Repr

namespace Sys

variable {n k : Nat}

/-- The signals in a cycle.  The slave acknowledges only a strobe. -/
def signals (s : Sys n k) (c : Choice n k) : BridgeIn n k where
  awvalid := (offer s.awHeld c.aw).isSome
  aw := (offer s.awHeld c.aw).getD ⟨0, 0, 0⟩
  wvalid := (offer s.wHeld c.w).isSome
  w := (offer s.wHeld c.w).getD ⟨0, 0⟩
  bready := c.bready
  arvalid := (offer s.arHeld c.ar).isSome
  ar := (offer s.arHeld c.ar).getD ⟨0, 0, 0⟩
  rready := c.rready
  ackI := s.bridge.cycO && s.bridge.stbO && c.ack
  datI := c.dat

/-- The requests that are accepted in a cycle. -/
def accepted (s : Sys n k) (c : Choice n k) : List (Request n k) :=
  (taken (offer s.awHeld c.aw) s.bridge.awready).map .write ++
    (taken (offer s.arHeld c.ar) s.bridge.arready).map .read

/-- The access that is acknowledged. -/
def access (s : Sys n k) (c : Choice n k) : List (WbAccess n) :=
  if (s.signals c).ackI then
    if s.bridge.weO then [.write s.bridge.currentAddress s.bridge.selO s.bridge.datO]
    else [.read s.bridge.currentAddress s.bridge.selO c.dat]
  else []

/-- The data beat that is accepted. -/
def wBeat (s : Sys n k) (c : Choice n k) : List WBeat := taken (offer s.wHeld c.w) s.bridge.wready

/-- The read beat that is given. -/
def rBeat (s : Sys n k) (c : Choice n k) : List (RBeat k) :=
  if s.bridge.rvalid && c.rready then [⟨s.bridge.rdata, s.bridge.rlast, s.bridge.rid⟩] else []

/-- The write response that is given. -/
def response (s : Sys n k) (c : Choice n k) : List (BitVec k) :=
  if s.bridge.bvalid && c.bready then [s.bridge.bid] else []

/-- A clock cycle. -/
def step (s : Sys n k) (c : Choice n k) : Sys n k where
  bridge := s.bridge.edge (s.signals c)
  awHeld := keep (offer s.awHeld c.aw) s.bridge.awready
  arHeld := keep (offer s.arHeld c.ar) s.bridge.arready
  wHeld := keep (offer s.wHeld c.w) s.bridge.wready
  requests := s.requests ++ s.accepted c
  accesses := s.accesses ++ s.access c
  wTaken := s.wTaken ++ s.wBeat c
  rGiven := s.rGiven ++ s.rBeat c
  bGiven := s.bGiven ++ s.response c

/-- The bridge after a reset, from whatever the registers held before. -/
def start (b : Bridge n k) : Sys n k := ⟨b.reset, none, none, none, [], [], [], [], []⟩

end Sys

/-! ## Bursts -/

/-- A burst, with the beats that have been written or read. -/
inductive Burst (n k : Nat)
  | write (a : AxiAddr n k) (beats : List WBeat)
  | read (a : AxiAddr n k) (data : List (BitVec 32))

namespace Burst

variable {n k : Nat}

/-- Its request. -/
def request : Burst n k → Request n k
  | .write a _ => .write a
  | .read a _ => .read a

/-- The accesses: one for each beat, at addresses four bytes apart. -/
def accesses : Burst n k → List (WbAccess n)
  | .write a beats => beats.mapIdx fun i b => .write (a.addr + BitVec.ofNat n (4 * i)) b.strb b.data
  | .read a data => data.mapIdx fun i d => .read (a.addr + BitVec.ofNat n (4 * i)) 0xf d

/-- The data beats that it takes. -/
def wTaken : Burst n k → List WBeat
  | .write _ beats => beats
  | .read _ _ => []

/-- The read beats that it gives; the one of number `len` is the last. -/
def rGiven : Burst n k → List (RBeat k)
  | .write _ _ => []
  | .read a data => data.mapIdx fun i d => ⟨d, i == a.len.toNat, a.id⟩

/-- Its write response. -/
def bGiven : Burst n k → List (BitVec k)
  | .write a _ => [a.id]
  | .read _ _ => []

/-- It has as many beats as its length field says, and one more. -/
def Whole : Burst n k → Prop
  | .write a beats => beats.length = a.len.toNat + 1
  | .read a data => data.length = a.len.toNat + 1

end Burst

end MlibDevel.AxiWb
