import Mathlib.Algebra.Group.Int.Defs
import Mathlib.Data.Int.Order.Basic

/-!
# Wishbone devices (`verilog.py`, `WbDevice`)

What `wb_compute` and the arbiter generator read and set of a `WbDevice`.  `base_addr` and
`high_addr` are `None` until `wb_compute` places the device, so a placed device is a type of its
own.
-/

namespace MlibDevel.Verilog

/-- A device before it is placed.  `reqOffset` is -1 when no offset is requested. -/
structure WbDevice where
  regname : String
  nbytes : Nat
  hdlSuffix : String
  hdlCandrSuffix : String
  reqOffset : Int
  deriving DecidableEq, Repr

/-- A device with its place on the bus and the number of its sub-arbiter. -/
structure PlacedDevice extends WbDevice where
  baseAddr : Int
  highAddr : Int
  subArbId : Int
  deriving DecidableEq, Repr

/-- `32'h%08x` of a Python integer, as Verilog reads it. -/
def lit32 (n : Int) : BitVec 32 := BitVec.ofInt 32 n

theorem lit32_le_iff {n : Int} (h0 : 0 ≤ n) (h1 : n < 2 ^ 32) (adr : BitVec 32) :
    lit32 n ≤ adr ↔ n ≤ adr.toNat := by
  rw [BitVec.le_def, lit32, BitVec.toNat_ofInt]
  omega

theorem le_lit32_iff {n : Int} (h0 : 0 ≤ n) (h1 : n < 2 ^ 32) (adr : BitVec 32) :
    adr ≤ lit32 n ↔ (adr.toNat : Int) ≤ n := by
  rw [BitVec.le_def, lit32, BitVec.toNat_ofInt]
  omega

end MlibDevel.Verilog
