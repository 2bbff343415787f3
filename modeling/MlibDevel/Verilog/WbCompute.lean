import MlibDevel.Lib.Chunks
import MlibDevel.Verilog.Immutable
import MlibDevel.Verilog.WbDevice
import Mathlib.Data.List.Sort
import Mathlib.Data.String.Basic

/-!
# Placing the Wishbone devices (`verilog.py`, `VerilogModule.wb_compute`)

`wb_compute` walks over the instances of a module twice: first, with the blocks in order of their
names, for the devices that request an offset, then, with the blocks as they were added, for the
others.  Each visit of an instance first connects its devices (`assign_wb_interface`, which also
names the localparams that will hold the slot numbers) and then places them and numbers them.  At
the end the devices are sorted by base address and the address tables are written.

A call that raises an exception is an `Except` error.  The nested dictionaries `localparams` and
`ports` are kept without their first level, the block they are printed under.
-/

namespace MlibDevel.Verilog

open Lib

/-- A dictionary of ports, parameters or localparams. -/
abbrev Objects := AList fun _ : String => Attrs

/-- `VerilogModule.add_localparam` (without a comment) -/
def addLocalparam (lps : Objects) (name : String) (value : PyVal) : Except PyError Objects := do
  let old := (lps.lookup name).getD ∅
  let new ← updateParameter old name value .none
  return lps.insert name new

/-- `VerilogModule.add_port` with `parent_sig=False` and the default `parent_port=False` -/
def addPort (ports : Objects) (name signal : String) (width : Int) : Except PyError Objects := do
  let name := rstrip name
  let old := (ports.lookup name).getD ∅
  let new ← updatePort old name (.str signal) false false width
  return ports.insert name new

/-- An instance: its devices and its ports. -/
structure Instance where
  wbDevices : List WbDevice
  ports : Objects

/--
A top module.  `instances` is the dictionary of blocks with their instances; `get_instance` keeps
the names of the instances distinct over all the blocks.
-/
structure VerilogModule where
  instances : List (String × List (String × Instance))
  localparams : Objects
  topfile : Bool
  baseWbSlaves : Nat
  maxDevicesPerArb : Option Nat
  names_nodup : ((instances.flatMap (·.2)).map (·.1)).Nodup

/-- An element of `self.wb_devices`: the device and where it comes from. -/
structure Entry where
  instname : String
  index : Nat
  dev : PlacedDevice
  deriving DecidableEq

/-- The variables of a call. -/
structure WbState where
  wbDeviceNum : Nat
  nWbSlaves : Nat
  baseAddr : Int
  wbDevices : List Entry
  localparams : Objects
  wbIds : String → List String
  ports : String → Objects

section

variable (upper : String → String)

/-- `name.upper() + '_WBID%d' % id` -/
def wbId (name : String) (id : Nat) : String := upper name ++ "_WBID" ++ toString id

/-- `VerilogModule.assign_wb_interface` -/
def assignWbInterface (s : WbState) (name : String) (id : Nat) (suffix candrSuffix : String)
    (subArbId : Int) : Except PyError WbState := do
  let wbId := wbId upper name id
  let arb := toString subArbId
  let ps ← addPort (s.ports name) ("wb_clk_i" ++ candrSuffix) "wb_clk_i" 0
  let ps ← addPort ps ("wb_rst_i" ++ candrSuffix) "wb_rst_i" 0
  let ps ← addPort ps ("wb_cyc_i" ++ suffix) ("wbs_cyc_o[" ++ wbId ++ "]") 0
  let ps ← addPort ps ("wb_stb_i" ++ suffix) ("wbs_stb_o[" ++ wbId ++ "]") 0
  let ps ← addPort ps ("wb_we_i" ++ suffix) "wbs_we_o" 0
  let ps ← addPort ps ("wb_sel_i" ++ suffix) "wbs_sel_o" 4
  let ps ← addPort ps ("wb_adr_i" ++ suffix)
    ("wbs_adr_o[(" ++ arb ++ "+1)*32-1:(" ++ arb ++ ")*32]") 32
  let ps ← addPort ps ("wb_dat_i" ++ suffix) "wbs_dat_o" 32
  let ps ← addPort ps ("wb_dat_o" ++ suffix)
    ("wbs_dat_i[(" ++ wbId ++ "+1)*32-1:(" ++ wbId ++ ")*32]") 32
  let ps ← addPort ps ("wb_ack_o" ++ suffix) ("wbs_ack_i[" ++ wbId ++ "]") 0
  let ps ← addPort ps ("wb_err_o" ++ suffix) ("wbs_err_i[" ++ wbId ++ "]") 0
  return { s with
    wbIds := Function.update s.wbIds name (s.wbIds name ++ [wbId])
    ports := Function.update s.ports name ps }

/-- `wb_device_num // self.max_devices_per_arb`; without a limit the device keeps its initial 0. -/
def subArbNumber (maxDevicesPerArb : Option Nat) (wbDeviceNum : Nat) : Except PyError Int :=
  match maxDevicesPerArb with
  | none => .ok 0
  | some 0 => .error .zeroDivisionError
  | some k => .ok (wbDeviceNum / k : Nat)

/-- The first loop over an instance's devices: number their sub-arbiters and connect them. -/
def assignLoop (maxDevicesPerArb : Option Nat) (instname : String) :
    WbState → List (WbDevice × Nat) → Except PyError (WbState × List (WbDevice × Nat × Int))
  | s, [] => .ok (s, [])
  | s, (dev, n) :: devs => do
    let subArbId ← subArbNumber maxDevicesPerArb s.wbDeviceNum
    let s := { s with wbDeviceNum := s.wbDeviceNum + 1 }
    let s ← assignWbInterface upper s instname n dev.hdlSuffix dev.hdlCandrSuffix subArbId
    let (s, rest) ← assignLoop maxDevicesPerArb instname s devs
    return (s, (dev, n, subArbId) :: rest)

/-- `alignment*int(ceil(nbytes/float(alignment)))`, with the division taken exactly. -/
def roundedSize (alignment : Int) (nbytes : Nat) : Int := alignment * -Int.fdiv (-nbytes) alignment

/-- `roundedSize` as Python computes it. -/
def roundUp (alignment : Int) (nbytes : Nat) : Except PyError Int :=
  if alignment = 0 then .error .zeroDivisionError else .ok (roundedSize alignment nbytes)

/-- Whether a pass places the devices that request an offset. -/
inductive Pass
  | requested (wbOffset : Int)
  | unrequested

/-- The test that selects a pass's devices. -/
def Pass.selects : Pass → WbDevice → Bool
  | .requested _, dev => dev.reqOffset ≠ -1
  | .unrequested, dev => dev.reqOffset = -1

/-- `wb_dev.base_addr` -/
def Pass.base (pass : Pass) (baseAddr : Int) (dev : WbDevice) : Int :=
  match pass with
  | .requested wbOffset => wbOffset + dev.reqOffset
  | .unrequested => baseAddr

/-- `base_addr` after a device that ends at `high`. -/
def Pass.next (pass : Pass) (baseAddr high : Int) : Int :=
  match pass with
  | .requested _ => if high > baseAddr then high + 1 else baseAddr
  | .unrequested => high + 1

/-- `inst.wb_ids[n]` -/
def nthWbId (wbIds : List String) (n : Nat) : Except PyError String :=
  match wbIds[n]? with
  | some name => .ok name
  | none => .error .indexError

/-- The second loop over an instance's devices: place them and give them their slot numbers. -/
def placeLoop (alignment : Int) (baseWbSlaves : Nat) (pass : Pass) (instname : String) :
    WbState → List (WbDevice × Nat × Int) → Except PyError WbState
  | s, [] => .ok s
  | s, (dev, n, subArbId) :: devs => do
    let size ← roundUp alignment dev.nbytes
    let base := pass.base s.baseAddr dev
    let high := base + size - 1
    let name ← nthWbId (s.wbIds instname) n
    let localparams ← addLocalparam s.localparams name (.int (s.nWbSlaves + baseWbSlaves : Nat))
    let placed : PlacedDevice := { dev with baseAddr := base, highAddr := high, subArbId }
    placeLoop alignment baseWbSlaves pass instname
      { s with
        baseAddr := pass.next s.baseAddr high
        nWbSlaves := s.nWbSlaves + 1
        wbDevices := s.wbDevices ++ [⟨instname, n, placed⟩]
        localparams } devs

/-- One visit of an instance. -/
def visitInstance (m : VerilogModule) (alignment : Int) (pass : Pass) (s : WbState)
    (inst : String × Instance) : Except PyError WbState := do
  let devs := inst.2.wbDevices.zipIdx.filter fun d => pass.selects d.1
  let (s, devs) ← assignLoop upper m.maxDevicesPerArb inst.1 s devs
  placeLoop alignment m.baseWbSlaves pass inst.1 s devs

/-- One pass over instances. -/
def visitAll (m : VerilogModule) (alignment : Int) (pass : Pass) :
    WbState → List (String × Instance) → Except PyError WbState
  | s, [] => .ok s
  | s, inst :: insts => do
    let s ← visitInstance upper m alignment pass s inst
    visitAll m alignment pass s insts

/-- The instances in the order of the first pass, `sorted(self.instances.keys())`. -/
def VerilogModule.byBlockName (m : VerilogModule) : List (String × Instance) :=
  (m.instances.insertionSort fun a b => a.1 ≤ b.1).flatMap (·.2)

/-- The instances in the order of the second pass. -/
def VerilogModule.asAdded (m : VerilogModule) : List (String × Instance) :=
  m.instances.flatMap (·.2)

/-- The state a call starts in. -/
def VerilogModule.start (m : VerilogModule) (baseAddr : Int) : WbState where
  wbDeviceNum := 0
  nWbSlaves := 0
  baseAddr
  wbDevices := []
  localparams := m.localparams
  wbIds _ := []
  ports name := ((m.asAdded.lookup name).map (·.ports)).getD ∅

/-- `%08x` -/
def fmt08x (n : Int) : String :=
  let digits := Nat.toDigits 16 n.natAbs
  if n < 0 then "-" ++ String.ofList (List.replicate (7 - digits.length) '0' ++ digits)
  else String.ofList (List.replicate (8 - digits.length) '0' ++ digits)

/-- An address table; `rows` are the addresses with their comments, the last slave first. -/
def addrTable (rows : List (Int × String)) : String :=
  let row (last : Bool) (r : Int × String) : String :=
    "    32'h" ++ fmt08x r.1 ++ (if last then "" else ",") ++ r.2 ++ "\n"
  "\x7b\n" ++ String.join (rows.mapIdx fun i r => row (i + 1 = rows.length) r) ++ "    \x7d"

/-- The two address tables for the sorted devices. -/
def addrTables (maxDevicesPerArb : Option Nat) (devices : List PlacedDevice) : String × String :=
  match maxDevicesPerArb with
  | some k =>
    let arbiters := (chunks k devices).reverse
    (addrTable (arbiters.map fun c => ((c.head?.map (·.baseAddr)).getD 0, "")),
     addrTable (arbiters.map fun c => ((c.getLast?.map (·.highAddr)).getD 0, "")))
  | none =>
    (addrTable (devices.reverse.map fun d => (d.baseAddr, " // " ++ d.regname)),
     addrTable (devices.reverse.map fun d => (d.highAddr, " // " ++ d.regname)))

/-- `self.add_localparam('N_SUB_ARBS', len(arbiters))`, when there are sub-arbiters. -/
def addSubArbs (maxDevicesPerArb : Option Nat) (lps : Objects) (devices : List PlacedDevice) :
    Except PyError Objects :=
  match maxDevicesPerArb with
  | some k => addLocalparam lps "N_SUB_ARBS" (.int (chunks k devices).length)
  | none => .ok lps

/-- `sorted(self.wb_devices, key=lambda i: i.base_addr)` -/
def sortEntries (es : List Entry) : List Entry :=
  es.insertionSort fun a b => a.dev.baseAddr ≤ b.dev.baseAddr

/-- `VerilogModule.wb_compute` -/
def wbCompute (m : VerilogModule) (baseAddr alignment : Int) : Except PyError WbState := do
  let s ← visitAll upper m alignment (.requested baseAddr) (m.start baseAddr) m.byBlockName
  let s ← visitAll upper m alignment .unrequested s m.asAdded
  let s := { s with wbDevices := sortEntries s.wbDevices }
  if m.topfile then return s
  else
    let lps ← addLocalparam s.localparams "N_WB_SLAVES" (.int s.nWbSlaves)
    let devices := s.wbDevices.map (·.dev)
    let lps ← addSubArbs m.maxDevicesPerArb lps devices
    let (baseAddrs, highAddrs) := addrTables m.maxDevicesPerArb devices
    let lps ← addLocalparam lps "SLAVE_ADDR" (.str baseAddrs)
    let lps ← addLocalparam lps "SLAVE_HIGH" (.str highAddrs)
    return { s with localparams := lps }

end

end MlibDevel.Verilog
