import MlibDevel.Lib.Chunks
import MlibDevel.Verilog.WbDevice
import MlibDevel.Wishbone.Arbiter

/-!
# Flat and hierarchical arbiters (`verilog.py`)

`wb_compute` puts the devices, sorted by base address, behind one `wbs_arbiter`, or behind a
`wbs_master_arbiter` when `max_devices_per_arb` is set.  The latter is text that
`gen_wbs_master_arbiter` generates: a primary arbiter that selects a sub-arbiter, and sub-arbiters
that get the address relative to their own first device.

All concatenations are written with the last device or sub-arbiter first, since Verilog counts
from the right.
-/

namespace MlibDevel.Wishbone

open Lib Verilog

/-- The `wbs_arbiter` with a slave for each device, as the branch without sub-arbiters emits it. -/
def flatArbiter (devices : List PlacedDevice) : WbsArbiter where
  nSlaves := devices.length
  slaveAddr := concat 32 (devices.reverse.map fun d => lit32 d.baseAddr)
  slaveHigh := concat 32 (devices.reverse.map fun d => lit32 d.highAddr)

/-- A `wbs_master_arbiter` instance: the primary arbiter and its sub-arbiters. -/
structure MasterArbiter where
  primary : WbsArbiter
  subs : List WbsArbiter

/--
`SLAVE_ADDR` and `SLAVE_HIGH` of the branch with sub-arbiters: each chunk spans the addresses from
its first device's base to its last device's end.
-/
def primaryArbiter (arbiters : List (List PlacedDevice)) : WbsArbiter where
  nSlaves := arbiters.length
  slaveAddr := concat 32 (arbiters.reverse.map fun c => lit32 ((c.head?.map (·.baseAddr)).getD 0))
  slaveHigh := concat 32
    (arbiters.reverse.map fun c => lit32 ((c.getLast?.map (·.highAddr)).getD 0))

/-- `arbiter_base_addresses[i]`: the lowest base address of a chunk. -/
def arbiterBaseAddress (arbiter : List PlacedDevice) : Int :=
  arbiter.foldl (fun b dev => if dev.baseAddr < b then dev.baseAddr else b) 0xFFFFFFFF

/-- `N_SLAVES_ARB<i>` -/
def nSlavesArb (arbiters : List (List PlacedDevice)) (maxDevicesPerArb i : Nat) : Nat :=
  let nDevices := (arbiters.map List.length).sum
  if i ≠ arbiters.length - 1 then maxDevicesPerArb
  else if nDevices % maxDevicesPerArb = 0 then maxDevicesPerArb
  else nDevices % maxDevicesPerArb

/-- `wbs_arbiter_<i>` -/
def subArbiter (nSlaves : Nat) (arbiter : List PlacedDevice) : WbsArbiter where
  nSlaves := nSlaves
  slaveAddr := concat 32
    (arbiter.reverse.map fun d => lit32 d.baseAddr - lit32 (arbiterBaseAddress arbiter))
  slaveHigh := concat 32
    (arbiter.reverse.map fun d => lit32 d.highAddr - lit32 (arbiterBaseAddress arbiter))

/-- `gen_wbs_master_arbiter` -/
def genWbsMasterArbiter (arbiters : List (List PlacedDevice)) (maxDevicesPerArb : Nat) :
    MasterArbiter where
  primary := primaryArbiter arbiters
  subs := arbiters.mapIdx fun i c => subArbiter (nSlavesArb arbiters maxDevicesPerArb i) c

/-- The arbiter `wb_compute` emits for `max_devices_per_arb = k`. -/
def masterArbiter (k : Nat) (devices : List PlacedDevice) : MasterArbiter :=
  genWbsMasterArbiter (chunks k devices) k

namespace MasterArbiter

variable (m : MasterArbiter) (adr : BitVec 32)

/-- `wbs_cyc_o_arb<i>`: every sub-arbiter gets the primary's address and its own cycle line. -/
def cycArb (i : Nat) (sub : WbsArbiter) : List Bool :=
  sub.wbsCycO (m.primary.wbsAdrO adr) (m.primary.wbsSelBit adr i)

/-- `assign wbs_cyc_o = {wbs_cyc_o_arb<n-1>, …, wbs_cyc_o_arb0}` -/
def wbsCycO : List Bool := concatBits (m.subs.mapIdx (m.cycArb adr)).reverse

/-- `assign wbs_adr_o = {wbs_adr_o_arb<n-1>, …, wbs_adr_o_arb0}` -/
def wbsAdrO : Nat :=
  concat 32 (m.subs.map fun sub => sub.wbsAdrO (m.primary.wbsAdrO adr)).reverse

end MasterArbiter

end MlibDevel.Wishbone
