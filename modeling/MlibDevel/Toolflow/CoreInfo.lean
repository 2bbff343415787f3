import MlibDevel.Jam.Cit2csl

/-!
# The core table (`Toolflow.write_core_jam_info`)

The toolflow lists every memory-mapped core of a design, and every register its `memory_map` names,
in `core_info.jam.tab`, and runs `cit2csl.py` on that file.  On a Wishbone platform the cores are
the top module's `wb_devices`, on an AXI4-Lite platform the devices of every interface in its
`memory_map`.

A name is a list of ASCII characters.  `none` is an exception.
-/

namespace MlibDevel.Toolflow

open Jam

/-! ## Devices -/

/-- Access permission of a device or register. -/
inductive Mode where
  | r
  | w
  | rw
deriving DecidableEq, Repr

/-- `modemap` -/
def modemap : Mode → Nat
  | .rw => 3
  | .r => 1
  | .w => 2

/-- The fields of a `Register` that name and place it. -/
structure Register where
  name : List UInt8
  nbytes : Int := 4
  offset : Int := 0
  mode : Mode := .r
deriving DecidableEq, Repr

/-- What `WbDevice` and `AXI4LiteDevice` have in common.  `baseAddr` is unset until the memory map
is computed. -/
structure MmDevice where
  regname : List UInt8
  nbytes : Int
  mode : Mode
  baseAddr : Option Int := none
  memoryMap : List Register := []
  typecode : Int := 0xff
deriving DecidableEq, Repr

/--
`add_axi4lite_interface`: a device of a name already taken is dropped, and a device without a memory
map of its own gets one register with the device's name.
-/
def addAxi4liteInterface (devices : List MmDevice) (regname : List UInt8) (mode : Mode)
    (nbytes : Int) (memoryMap : List Register) (typecode : Int) : List MmDevice :=
  if regname ∈ devices.map MmDevice.regname then devices
  else
    let memoryMap :=
      if memoryMap = [] then [{ name := regname, nbytes, offset := 0, mode }] else memoryMap
    devices ++ [{ regname := regname, nbytes, mode, memoryMap, typecode }]

/-- `plat.mmbus_architecture` -/
inductive MmbusArchitecture where
  | axi4Lite
  | wishbone
deriving DecidableEq, Repr

/-- The part of the top module the table is made from.  An entry of `memoryMap` is an interface
with its `axi4lite_devices`. -/
structure Top where
  memoryMap : List (List UInt8 × List MmDevice) := []
  wbDevices : List MmDevice := []

/-- `self.cores` -/
def Top.cores (top : Top) : MmbusArchitecture → List MmDevice
  | .axi4Lite => top.memoryMap.flatMap Prod.snd
  | .wishbone => top.wbDevices

/-! ## The text of the table -/

/-- A hexadecimal digit as `format` writes it. -/
def hexChar (d : Nat) : UInt8 := UInt8.ofNat (if d < 10 then 48 + d else 87 + d)

/-- `'{:x}'.format(n)` for a natural number. -/
def hexDigits (n : Nat) : List UInt8 :=
  if n < 16 then [hexChar n] else hexDigits (n / 16) ++ [hexChar (n % 16)]

/-- `'{:x}'.format(n)` -/
def formatHex : Int → List UInt8
  | .ofNat n => hexDigits n
  | .negSucc n => 45 :: hexDigits (n + 1)

/-- Left-aligned in a field of `width` characters. -/
def ljust (width : Nat) (s : List UInt8) : List UInt8 :=
  s ++ List.replicate (width - s.length) 32

/-- One table line, `'{0:%d} {1:1} {2:<16x} {3:<16x} {4:<2x}\n' % longest_name`, without its
newline. -/
def formatRow (longestName : Nat) (name : List UInt8) (mode : Mode) (addr nbytes typecode : Int) :
    List UInt8 :=
  ljust longestName name ++ 32 :: UInt8.ofNat (48 + modemap mode) :: 32 ::
    (ljust 16 (formatHex addr) ++ 32 :: (ljust 16 (formatHex nbytes)
      ++ 32 :: ljust 2 (formatHex typecode)))

/-- `longest_name` -/
def longestName (cores : List MmDevice) : Nat :=
  (cores.map fun core => core.regname.length).foldl max 0

/-- The lines of one core: the core itself, then its aliases. -/
def coreRows (longest : Nat) (core : MmDevice) : Option (List (List UInt8)) :=
  core.baseAddr.map fun base =>
    formatRow longest core.regname core.mode base core.nbytes core.typecode ::
      core.memoryMap.map fun reg =>
        formatRow longest reg.name reg.mode (base + reg.offset) reg.nbytes core.typecode

/-- The lines the toolflow adds to the platform's base table. -/
def tableRows (cores : List MmDevice) : Option (List (List UInt8)) :=
  (cores.mapM (coreRows (longestName cores))).map List.flatten

/-- The contents of `core_info.jam.tab`.  `basefile` is the platform's own table, if it has one. -/
def coreJamText (basefile : Option (List UInt8)) (cores : List MmDevice) : Option (List UInt8) :=
  (tableRows cores).map fun rows => basefile.getD [] ++ rows.flatMap fun row => row ++ [10]

/-- `write_core_jam_info`: the table it writes and the binary file made from it. -/
def writeCoreJamInfo (arch : MmbusArchitecture) (basefile : Option (List UInt8)) (top : Top) :
    Option (List UInt8 × List UInt8) := do
  let text ← coreJamText basefile (top.cores arch)
  let bin ← cit2csl text
  return (text, bin)

/-- The core and alias names a design writes to the table. -/
def coreNames (cores : List MmDevice) : List (List UInt8) :=
  cores.flatMap fun core => core.regname :: core.memoryMap.map Register.name

/-- The names in the platform's own table. -/
def baseNames (basefile : Option (List UInt8)) : List (List UInt8) :=
  ((parseTable (basefile.getD [])).getD []).map Line.dev

end MlibDevel.Toolflow
