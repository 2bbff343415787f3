import MlibDevel.Lib.Dict
import MlibDevel.Lib.Layout
import MlibDevel.Toolflow.CoreInfo
import Mathlib.Data.Nat.Log

/-!
# The AXI4-Lite memory map (`VerilogModule.axi4lite_memory_map`)

The devices of the top module are put into interfaces: all the software registers into one,
`sw_reg`, and every other device into one of its own.  The sizes of the interfaces are rounded up to
powers of two, and the interfaces are placed one after the other, the largest first.

The `while` loop that orders them runs with an explicit bound on its iterations.
-/

namespace MlibDevel.Toolflow

open Lib
open Jam (ascii)

/-- A device of the top module. -/
structure Axi4liteDevice extends MmDevice where
  axi4liteMode : List UInt8 := []
  deriving DecidableEq, Repr

/-- An entry of the memory map.  `relativeAddress` is the number that is stored as its `hex`
text. -/
structure Interface where
  size : Int
  memoryMap : List Register
  axi4liteDevices : List Axi4liteDevice
  relativeAddress : Option Int := none
  deriving DecidableEq, Repr

/-- `self.memory_map` -/
abbrev MemoryMap := List (List UInt8 × Interface)

/-- Why a call has no result. -/
inductive MapError
  /-- `dev.memory_map[0]` or `axi4lite_devices[0]` of an empty list -/
  | indexError
  /-- `log` of a number that is not positive -/
  | valueError
  /-- `max_key` before its first assignment -/
  | unboundLocalError
  /-- a `max_key` left over from an earlier round -/
  | keyError
  | zeroDivisionError
  /-- No exception: the loop has not ended after the iterations allowed. -/
  | running
  deriving DecidableEq, Repr

/-- `TYPECODE_SWREG` -/
def typecodeSwreg : Int := 0

/-- `TYPECODE_BRAM` -/
def typecodeBram : Int := 4

/-- The interface of the software registers. -/
def swReg : List UInt8 := ascii "sw_reg"

/-! ## Interfaces -/

/-- `dev.memory_map = []` -/
def Axi4liteDevice.erased (dev : Axi4liteDevice) : Axi4liteDevice := { dev with memoryMap := [] }

/-- `dev.memory_map[0].offset = offset` -/
def setOffset (offset : Int) : List Register → Except MapError (List Register)
  | [] => .error .indexError
  | reg :: regs => .ok ({ reg with offset } :: regs)

/-- One iteration of the loop over `self.axi4lite_devices`. -/
def addDevice (map : MemoryMap) (dev : Axi4liteDevice) : Except MapError MemoryMap :=
  if dev.typecode = typecodeSwreg then
    match Dict.get? swReg map with
    | none => .ok (Dict.set swReg ⟨dev.nbytes, dev.memoryMap, [dev.erased], none⟩ map)
    | some interface => do
      let regs ← setOffset interface.size dev.memoryMap
      return Dict.set swReg
        { interface with
          size := interface.size + dev.nbytes
          memoryMap := interface.memoryMap ++ regs
          axi4liteDevices := interface.axi4liteDevices ++ [dev.erased] } map
  else if dev.typecode = typecodeBram then
    .ok (Dict.set dev.regname ⟨dev.nbytes, dev.memoryMap, [dev.erased], none⟩ map)
  else if dev.axi4liteMode = ascii "raw" then
    .ok (Dict.set dev.regname ⟨dev.nbytes, dev.memoryMap, [dev.erased], none⟩ map)
  else
    -- these keep their memory map, so that `core_info` lists their registers
    .ok (Dict.set dev.regname ⟨dev.nbytes, dev.memoryMap, [dev], none⟩ map)

/-- The loop over `self.axi4lite_devices`. -/
def addDevices : MemoryMap → List Axi4liteDevice → Except MapError MemoryMap
  | map, [] => .ok map
  | map, dev :: devs => do
    let map ← addDevice map dev
    addDevices map devs

/-! ## Sizes and order -/

/-- `2**int(ceil(log(size, 2)))`, with the logarithm taken exactly. -/
def roundSize (size : Int) : Except MapError Int :=
  if size ≤ 0 then .error .valueError else .ok (2 ^ Nat.clog 2 size.toNat)

/-- The loop that rounds the sizes up. -/
def roundSizes : MemoryMap → Except MapError MemoryMap
  | [] => .ok []
  | (key, val) :: map => do
    let size ← roundSize val.size
    let map ← roundSizes map
    return (key, { val with size }) :: map

/--
`while len(self.memory_map) > 0`: the largest interface is moved to the end of the ordered map.
`maxKey` keeps its value from one round to the next.
-/
def orderLoop : Nat → Option (List UInt8) → MemoryMap → MemoryMap → Except MapError MemoryMap
  | _, _, [], ordered => .ok ordered
  | 0, _, _ :: _, _ => .error .running
  | fuel + 1, maxKey, e :: map, ordered =>
    match (Dict.scan Interface.size (0, maxKey) (e :: map)).2 with
    | none => .error .unboundLocalError
    | some key =>
      match Dict.pop? key (e :: map) with
      | none => .error .keyError
      | some (val, map') => orderLoop fuel (some key) map' (Dict.set key val ordered)

/-! ## Addresses -/

/-- The base addresses of the software registers, found by name. -/
def assignSwRegs (address : Int) (devs : List Axi4liteDevice) : List Register → List Axi4liteDevice
  | [] => devs
  | reg :: regs =>
    assignSwRegs address (devs.map fun dev =>
      if reg.name = dev.regname then { dev with baseAddr := some (address + reg.offset) } else dev)
      regs

/-- The base address of the device of another interface. -/
def assignDevice (address : Int) : List Axi4liteDevice → Except MapError (List Axi4liteDevice)
  | [] => .error .indexError
  | dev :: devs => .ok ({ dev with baseAddr := some address } :: devs)

/-- `alignment*int(ceil(size/float(alignment)))`; of powers of two the quotient is exact. -/
def alignedSize (alignment size : Int) : Except MapError Int :=
  if alignment = 0 then .error .zeroDivisionError else .ok (ceilMul alignment size)

/-- The loop that determines the addresses. -/
def assignAddresses (baseAddr alignment : Int) : Int → MemoryMap → Except MapError MemoryMap
  | _, [] => .ok []
  | relativeAddress, (key, val) :: map => do
    let devs ←
      if key = swReg then
        pure (assignSwRegs (baseAddr + relativeAddress) val.axi4liteDevices val.memoryMap)
      else assignDevice (baseAddr + relativeAddress) val.axi4liteDevices
    let step ← alignedSize alignment val.size
    let map ← assignAddresses baseAddr alignment (relativeAddress + step) map
    return (key, { val with
      relativeAddress := some relativeAddress
      axi4liteDevices := devs }) :: map

/-- `VerilogModule.axi4lite_memory_map`, its `while` loop bounded by `fuel` iterations. -/
def axi4liteMemoryMap (fuel : Nat) (devices : List Axi4liteDevice) (baseAddr alignment : Int) :
    Except MapError MemoryMap := do
  let map ← addDevices [] devices
  let map ← roundSizes map
  let map ← orderLoop fuel none map []
  assignAddresses baseAddr alignment 0 map

end MlibDevel.Toolflow
