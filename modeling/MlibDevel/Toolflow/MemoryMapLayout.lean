import MlibDevel.Toolflow.Interfaces

/-!
# Where the AXI4-Lite devices lie

The interfaces are placed one after the other in steps that are multiples of every later size,
because the sizes are powers of two and do not grow.  Inside the interface of the software registers
all but the first are put one after the other; the first one keeps the offset of its own register.

## Main results

- `axi4liteMemoryMap_iff` : the memory map is as it should be exactly if the first software register
  is in nobody's way
-/

namespace MlibDevel.Toolflow

open Lib
open Jam (ascii)

/-- The addresses of an interface, relative to the base address. -/
def Interface.block (i : Interface) : Block := ⟨i.relativeAddress.getD 0, i.size⟩

/-- The addresses of a device. -/
def Axi4liteDevice.block (dev : Axi4liteDevice) : Block := ⟨dev.baseAddr.getD 0, dev.nbytes⟩

/-- The interface a device belongs to. -/
def Axi4liteDevice.interface (dev : Axi4liteDevice) : List UInt8 :=
  if dev.IsSwReg then swReg else dev.regname

/-- How the memory map should be. -/
structure Mapped (devices : List Axi4liteDevice) (baseAddr : Int) (map : MemoryMap) : Prop where
  complete : ∀ dev ∈ devices, ∃ e ∈ map, e.1 = dev.interface ∧
    ∃ d ∈ e.2.axi4liteDevices, d.regname = dev.regname ∧ d.nbytes = dev.nbytes
  placed : ∀ e ∈ map, e.2.relativeAddress.isSome ∧ ∀ d ∈ e.2.axi4liteDevices, d.baseAddr.isSome
  apart : map.Pairwise fun a b => a.2.block.Apart b.2.block
  least : ∀ e ∈ map,
    IsLeast {n : Int | (∃ k : Nat, n = 2 ^ k) ∧ bytes e.2.axi4liteDevices ≤ n} e.2.size
  aligned : ∀ e ∈ map, e.2.size ∣ e.2.block.start
  inside : ∀ e ∈ map, ∀ d ∈ e.2.axi4liteDevices,
    d.block.Inside ⟨baseAddr + e.2.block.start, e.2.size⟩
  registers : ∀ e ∈ map, e.1 = swReg →
    e.2.axi4liteDevices.Pairwise fun a b => a.block.Apart b.block

/-- The loop returns this map, if it may run long enough. -/
def Returns (devices : List Axi4liteDevice) (baseAddr alignment : Int) (map : MemoryMap) : Prop :=
  ∃ n, ∀ fuel, n ≤ fuel → axi4liteMemoryMap fuel devices baseAddr alignment = .ok map

/--
The offset of the first software register: inside the interface, and 0 or behind the registers that
follow, if there are any.
-/
def FirstInPlace (devices : List Axi4liteDevice) : Prop :=
  ∀ dev rest reg, swRegs devices = dev :: rest → dev.memoryMap = [reg] →
    0 ≤ reg.offset ∧ reg.offset + dev.nbytes ≤ 2 ^ Nat.clog 2 (bytes (dev :: rest)).toNat ∧
      (rest = [] ∨ reg.offset = 0 ∨ bytes (dev :: rest) ≤ reg.offset)

/-! ## Software registers -/

/-- What the registers do to one device. -/
def assignOne (address : Int) (dev : Axi4liteDevice) : List Register → Axi4liteDevice
  | [] => dev
  | reg :: regs =>
    assignOne address
      (if reg.name = dev.regname then { dev with baseAddr := some (address + reg.offset) } else dev)
      regs

theorem assignSwRegs_eq (address : Int) : ∀ (regs : List Register) (devs : List Axi4liteDevice),
    assignSwRegs address devs regs = devs.map fun dev => assignOne address dev regs
  | [], devs => (List.map_id' devs).symm
  | reg :: regs, devs => by
    rw [assignSwRegs, assignSwRegs_eq address regs, List.map_map]
    rfl

theorem assignOne_of_not_mem (address : Int) (dev : Axi4liteDevice) : ∀ (regs : List Register),
    (∀ reg ∈ regs, reg.name ≠ dev.regname) → assignOne address dev regs = dev
  | [], _ => rfl
  | reg :: regs, h => by
    rw [assignOne, if_neg (h reg List.mem_cons_self)]
    exact assignOne_of_not_mem address dev regs fun r hr => h r (List.mem_cons_of_mem _ hr)

/-- A device is put where the register with its name is. -/
theorem assignOne_of_mem (address : Int) (dev : Axi4liteDevice) : ∀ {regs : List Register}
    {reg : Register}, (regs.map Register.name).Nodup → reg ∈ regs → reg.name = dev.regname →
    assignOne address dev regs = { dev with baseAddr := some (address + reg.offset) }
  | r :: regs, reg, hnodup, hmem, hname => by
    rw [List.map_cons, List.nodup_cons] at hnodup
    rcases List.mem_cons.mp hmem with rfl | hmem
    · rw [assignOne, if_pos hname]
      refine assignOne_of_not_mem address _ regs fun r' hr' he => hnodup.1 ?_
      rw [hname]
      exact List.mem_map.mpr ⟨r', hr', he⟩
    · rw [assignOne, if_neg]
      · exact assignOne_of_mem address dev hnodup.2 hmem hname
      · intro he
        refine hnodup.1 ?_
        rw [he, ← hname]
        exact List.mem_map_of_mem hmem

/-- Devices one after the other from `address` on. -/
def inRow : Int → List Axi4liteDevice → List Axi4liteDevice
  | _, [] => []
  | address, dev :: devs =>
    { dev.erased with baseAddr := some address } :: inRow (address + dev.nbytes) devs

theorem mem_inRow {dev : Axi4liteDevice} : ∀ {devs : List Axi4liteDevice} {address : Int},
    dev ∈ devs → ∃ d ∈ inRow address devs, d.regname = dev.regname ∧ d.nbytes = dev.nbytes
  | d :: devs, address, h => by
    rcases List.mem_cons.mp h with rfl | h
    · exact ⟨_, List.mem_cons_self, rfl, rfl⟩
    · obtain ⟨d', hd', hsame⟩ := mem_inRow h
      exact ⟨d', List.mem_cons_of_mem _ hd', hsame⟩

theorem inRow_placed : ∀ {devs : List Axi4liteDevice} {address : Int},
    ∀ d ∈ inRow address devs, d.baseAddr.isSome = true
  | dev :: devs, address, d, hd => by
    rcases List.mem_cons.mp hd with rfl | hd
    · rfl
    · exact inRow_placed d hd

theorem bytes_inRow : ∀ (devs : List Axi4liteDevice) (address : Int),
    bytes (inRow address devs) = bytes devs
  | [], _ => rfl
  | dev :: devs, address => by
    rw [inRow, bytes_cons, bytes_cons, bytes_inRow devs]
    rfl

theorem bytes_nonneg : ∀ {devs : List Axi4liteDevice}, (∀ dev ∈ devs, 1 ≤ dev.nbytes) →
    0 ≤ bytes devs
  | [], _ => le_rfl
  | dev :: devs, h => by
    have := bytes_nonneg fun d hd => h d (List.mem_cons_of_mem _ hd)
    have := h dev List.mem_cons_self
    rw [bytes_cons]
    omega

theorem inRow_stacked : ∀ (address : Int) {devs : List Axi4liteDevice},
    (∀ dev ∈ devs, 1 ≤ dev.nbytes) →
    Block.Stacked address ((inRow address devs).map Axi4liteDevice.block)
  | _, [], _ => trivial
  | address, dev :: devs, h => by
    have hpos := h dev List.mem_cons_self
    refine ⟨le_rfl, ?_, inRow_stacked _ fun d hd => h d (List.mem_cons_of_mem _ hd)⟩
    show 0 ≤ dev.nbytes
    omega

theorem inRow_stop_le : ∀ {devs : List Axi4liteDevice} {address : Int},
    (∀ dev ∈ devs, 1 ≤ dev.nbytes) →
    ∀ d ∈ inRow address devs, d.block.stop ≤ address + bytes devs
  | dev :: devs, address, h, d, hd => by
    have hrest : ∀ d ∈ devs, 1 ≤ d.nbytes := fun d hd => h d (List.mem_cons_of_mem _ hd)
    have := bytes_nonneg hrest
    rw [bytes_cons]
    rcases List.mem_cons.mp hd with rfl | hd
    · show address + dev.nbytes ≤ _
      omega
    · have := inRow_stop_le hrest d hd
      omega

/-- There is no gap between them. -/
theorem inRow_covers : ∀ {devs : List Axi4liteDevice} {address adr : Int},
    address ≤ adr → adr < address + bytes devs → ∃ d ∈ inRow address devs, adr ∈ d.block
  | [], address, adr, hle, hlt => by
    have hzero : bytes [] = 0 := rfl
    omega
  | dev :: devs, address, adr, hle, hlt => by
    rw [bytes_cons] at hlt
    by_cases hin : adr < address + dev.nbytes
    · exact ⟨_, List.mem_cons_self, hle, hin⟩
    · obtain ⟨d, hd, hmem⟩ : ∃ d ∈ inRow (address + dev.nbytes) devs, adr ∈ d.block :=
        inRow_covers (not_lt.mp hin) (by omega)
      exact ⟨d, List.mem_cons_of_mem _ hd, hmem⟩

section

variable {devices rest : List Axi4liteDevice} {dev : Axi4liteDevice} {reg : Register}

/-- The registers of the interface have the names of the devices. -/
theorem map_name_offsetRegs : ∀ {devs : List Axi4liteDevice} {offset : Int},
    (∀ dev ∈ devs, ∃ reg, dev.memoryMap = [reg] ∧ reg.name = dev.regname) →
    (offsetRegs offset devs).map Register.name = devs.map fun dev => dev.regname
  | [], _, _ => rfl
  | dev :: devs, offset, h => by
    obtain ⟨reg, hreg, hname⟩ := h dev List.mem_cons_self
    rw [offsetRegs, hreg, List.map_append,
      map_name_offsetRegs fun d hd => h d (List.mem_cons_of_mem _ hd)]
    show reg.name :: _ = dev.regname :: _
    rw [hname]
    rfl

theorem map_assignOne_offsetRegs (address : Int) {regs : List Register}
    (hnodup : (regs.map Register.name).Nodup) : ∀ {devs : List Axi4liteDevice} {offset : Int},
    (∀ dev ∈ devs, ∃ reg, dev.memoryMap = [reg] ∧ reg.name = dev.regname) →
    (∀ reg ∈ offsetRegs offset devs, reg ∈ regs) →
    (devs.map Axi4liteDevice.erased).map (fun dev => assignOne address dev regs)
      = inRow (address + offset) devs
  | [], _, _, _ => rfl
  | dev :: devs, offset, h, hsub => by
    obtain ⟨reg, hreg, hname⟩ := h dev List.mem_cons_self
    rw [offsetRegs, hreg] at hsub
    have hfirst := assignOne_of_mem address dev.erased hnodup
      (hsub { reg with offset } (by simp)) hname
    have hrest := map_assignOne_offsetRegs address hnodup
      (fun d hd => h d (List.mem_cons_of_mem _ hd))
      (fun r hr => hsub r (List.mem_append_right _ hr))
    rw [List.map_cons, List.map_cons, hfirst, hrest, inRow, Int.add_assoc]

theorem swRegs_listed (hl : Listed devices) : ∀ dev ∈ swRegs devices,
    1 ≤ dev.nbytes ∧ ∃ reg, dev.memoryMap = [reg] ∧ reg.name = dev.regname := by
  intro dev hdev
  obtain ⟨hmem, hsw⟩ := List.mem_filter.mp hdev
  exact ⟨hl.nbytes dev hmem, hl.registers dev hmem (by simpa using hsw)⟩

/-- **The software registers**: the first where its register says, the others in a row. -/
theorem assignSwRegs_swInterface (hl : Listed devices) (hsw : swRegs devices = dev :: rest)
    (hreg : dev.memoryMap = [reg]) (address : Int) :
    assignSwRegs address (swInterface dev rest).axi4liteDevices (swInterface dev rest).memoryMap
      = { dev.erased with baseAddr := some (address + reg.offset) }
        :: inRow (address + dev.nbytes) rest := by
  have hlisted := swRegs_listed hl
  rw [hsw] at hlisted
  have hone : ∀ d ∈ rest, ∃ reg, d.memoryMap = [reg] ∧ reg.name = d.regname := fun d hd =>
    (hlisted d (List.mem_cons_of_mem _ hd)).2
  obtain ⟨reg', hreg', hname⟩ := (hlisted dev List.mem_cons_self).2
  rw [hreg, List.cons.injEq] at hreg'
  rw [← hreg'.1] at hname
  have hnodup : ((swInterface dev rest).memoryMap.map Register.name).Nodup := by
    show ((dev.memoryMap ++ offsetRegs dev.nbytes rest).map Register.name).Nodup
    rw [hreg, List.map_append, map_name_offsetRegs hone, List.map_singleton, hname]
    have hsub : ((dev :: rest).map fun d => d.regname).Sublist
        (devices.map fun d => d.regname) := by
      rw [← hsw]
      exact List.filter_sublist.map _
    exact hsub.nodup hl.distinct
  have hmem : ∀ r, r ∈ (swInterface dev rest).memoryMap ↔
      r = reg ∨ r ∈ offsetRegs dev.nbytes rest := by
    intro r
    show r ∈ dev.memoryMap ++ offsetRegs dev.nbytes rest ↔ _
    rw [hreg, List.mem_append, List.mem_singleton]
  rw [assignSwRegs_eq]
  show assignOne address dev.erased _ :: (rest.map Axi4liteDevice.erased).map _ = _
  rw [assignOne_of_mem address dev.erased hnodup ((hmem reg).mpr (Or.inl rfl)) hname,
    map_assignOne_offsetRegs address hnodup hone fun r hr => (hmem r).mpr (Or.inr hr)]

end

/-! ## Addresses of the interfaces -/

/-- An interface, placed. -/
def placeAt (baseAddr relativeAddress : Int) (e : List UInt8 × Interface) :
    List UInt8 × Interface :=
  (e.1, { e.2 with
    relativeAddress := some relativeAddress
    axi4liteDevices :=
      if e.1 = swReg then
        assignSwRegs (baseAddr + relativeAddress) e.2.axi4liteDevices e.2.memoryMap
      else
        match e.2.axi4liteDevices with
        | [] => []
        | dev :: devs => { dev with baseAddr := some (baseAddr + relativeAddress) } :: devs })

/-- All of them, one after the other. -/
def placeAll (baseAddr alignment : Int) : Int → MemoryMap → MemoryMap
  | _, [] => []
  | relativeAddress, e :: map =>
    placeAt baseAddr relativeAddress e
      :: placeAll baseAddr alignment (relativeAddress + ceilMul alignment e.2.size) map

theorem assignAddresses_ok (baseAddr : Int) {alignment : Int} (ha : 0 < alignment) :
    ∀ {map : MemoryMap} {relativeAddress : Int},
    (∀ e ∈ map, e.1 ≠ swReg → e.2.axi4liteDevices ≠ []) →
    assignAddresses baseAddr alignment relativeAddress map
      = .ok (placeAll baseAddr alignment relativeAddress map)
  | [], _, _ => rfl
  | (key, val) :: map, relativeAddress, h => by
    have hstep : alignedSize alignment val.size = .ok (ceilMul alignment val.size) := by
      unfold alignedSize
      rw [if_neg ha.ne']
    have hrest : assignAddresses baseAddr alignment
      (relativeAddress + ceilMul alignment val.size) map
        = .ok (placeAll baseAddr alignment (relativeAddress + ceilMul alignment val.size) map) :=
      assignAddresses_ok baseAddr ha fun e he => h e (List.mem_cons_of_mem _ he)
    have hne := h _ List.mem_cons_self
    unfold assignAddresses placeAll placeAt
    rw [hstep]
    by_cases hk : key = swReg
    · simp only [if_pos hk]
      show (assignAddresses baseAddr alignment _ map >>= _) = _
      rw [hrest]
      rfl
    · simp only [if_neg hk]
      cases hdevs : val.axi4liteDevices with
      | nil => exact absurd hdevs (hne hk)
      | cons dev devs =>
        show (assignAddresses baseAddr alignment _ map >>= _) = _
        rw [hrest]
        rfl

section

variable {baseAddr alignment : Int}

theorem of_mem_placeAll : ∀ {map : MemoryMap} {relativeAddress : Int} {e' : List UInt8 × Interface},
    e' ∈ placeAll baseAddr alignment relativeAddress map →
    ∃ e ∈ map, ∃ address, e' = placeAt baseAddr address e
  | e :: map, relativeAddress, e', h => by
    rcases List.mem_cons.mp h with rfl | h
    · exact ⟨e, List.mem_cons_self, relativeAddress, rfl⟩
    · obtain ⟨e₀, he₀, hplace⟩ := of_mem_placeAll h
      exact ⟨e₀, List.mem_cons_of_mem _ he₀, hplace⟩

theorem mem_placeAll (baseAddr alignment : Int) : ∀ (relativeAddress : Int) {map : MemoryMap}
    {e : List UInt8 × Interface}, e ∈ map →
    ∃ address, placeAt baseAddr address e ∈ placeAll baseAddr alignment relativeAddress map
  | relativeAddress, e' :: map, e, h => by
    rcases List.mem_cons.mp h with rfl | h
    · exact ⟨relativeAddress, List.mem_cons_self⟩
    · obtain ⟨address, hmem⟩ := mem_placeAll baseAddr alignment _ h
      exact ⟨address, List.mem_cons_of_mem _ hmem⟩

theorem placeAll_stacked (baseAddr : Int) (ha : 0 < alignment) :
    ∀ (relativeAddress : Int) {map : MemoryMap}, (∀ e ∈ map, 0 < e.2.size) →
    Block.Stacked relativeAddress
      ((placeAll baseAddr alignment relativeAddress map).map fun e => e.2.block)
  | _, [], _ => trivial
  | relativeAddress, e :: map, h => by
    have hpos := h e List.mem_cons_self
    have hle := le_ceilMul ha e.2.size
    refine ⟨le_rfl, hpos.le, ?_⟩
    refine Block.Stacked.mono ?_
      (placeAll_stacked baseAddr ha _ fun e' he' => h e' (List.mem_cons_of_mem _ he'))
    show relativeAddress + e.2.size ≤ _
    omega

/-- Every interface is at a multiple of its size: so far there were only steps of larger ones. -/
theorem placeAll_aligned (k : Nat) (ha : alignment = 2 ^ k) :
    ∀ {map : MemoryMap} {relativeAddress : Int},
    (∀ e ∈ map, ∃ i : Nat, e.2.size = 2 ^ i) → map.Pairwise (fun a b => b.2.size ≤ a.2.size) →
    (∀ e ∈ map, e.2.size ∣ relativeAddress) →
    ∀ e ∈ placeAll baseAddr alignment relativeAddress map, e.2.size ∣ e.2.block.start
  | e :: map, relativeAddress, hpow, hsorted, hdvd, e', he' => by
    rw [List.pairwise_cons] at hsorted
    rcases List.mem_cons.mp he' with rfl | he'
    · exact hdvd e List.mem_cons_self
    · have hnext : ∀ x ∈ map, x.2.size ∣ relativeAddress + ceilMul alignment e.2.size := by
        intro x hx
        obtain ⟨i, hi⟩ := hpow e List.mem_cons_self
        obtain ⟨j, hj⟩ := hpow x (List.mem_cons_of_mem _ hx)
        have hle := hsorted.1 x hx
        rw [hi, hj] at hle
        refine Int.dvd_add (hdvd x (List.mem_cons_of_mem _ hx)) ?_
        rw [hi, hj, ha]
        exact pow_dvd_ceilMul i k ((pow_le_pow_iff_right₀ one_lt_two).mp hle)
      exact placeAll_aligned k ha (fun x hx => hpow x (List.mem_cons_of_mem _ hx)) hsorted.2 hnext
        e' he'

end

/-! ## The whole map -/

section

variable {devices : List Axi4liteDevice} {baseAddr alignment : Int} {map : MemoryMap}

theorem Expected.size_pos (hl : Listed devices) {e : List UInt8 × Interface}
    (h : Expected devices e) : 0 < e.2.size := by
  rcases h with ⟨dev, hdev, -, rfl⟩ | ⟨dev, rest, hsw, rfl⟩
  · have := hl.nbytes dev hdev
    show 0 < dev.nbytes
    omega
  · have hlisted := swRegs_listed hl
    rw [hsw] at hlisted
    have hfirst := (hlisted dev List.mem_cons_self).1
    have hrest := bytes_nonneg fun d hd => (hlisted d (List.mem_cons_of_mem _ hd)).1
    show 0 < bytes (dev :: rest)
    rw [bytes_cons]
    omega

/-- The interfaces in the order in which they are placed. -/
structure Ordered (devices : List Axi4liteDevice) (map : MemoryMap) : Prop where
  mem : ∀ e, e ∈ map ↔ ∃ e₀, Expected devices e₀ ∧ e = rounded e₀
  sorted : map.Pairwise fun a b => b.2.size ≤ a.2.size

/-- **A call returns**, once it may run as many rounds as there are interfaces. -/
theorem returns_placeAll (baseAddr : Int) (hl : Listed devices) (ha : 0 < alignment) :
    ∃ map, Ordered devices map ∧
      Returns devices baseAddr alignment (placeAll baseAddr alignment 0 map) := by
  obtain ⟨map₁, hadd, hcollected⟩ := addDevices_ok hl
  have hpos : ∀ e ∈ map₁, 0 < e.2.size := fun e he => ((hcollected.mem e).mp he).size_pos hl
  have hround := roundSizes_ok hpos
  have hkeys : (Dict.keys ([] ++ map₁.map rounded)).Nodup := by
    unfold Dict.keys
    rw [List.nil_append, List.map_map]
    exact hcollected.nodup
  have hpos' : ∀ e ∈ map₁.map rounded, 0 < e.2.size := by
    intro e he
    obtain ⟨e₀, -, rfl⟩ := List.mem_map.mp he
    exact pow_pos two_pos _
  obtain ⟨map, hloop, hperm, hsorted⟩ := orderLoop_ok _ none (map₁.map rounded) [] rfl hkeys hpos'
  have hmem : ∀ e, e ∈ map ↔ ∃ e₀, Expected devices e₀ ∧ e = rounded e₀ := by
    intro e
    rw [hperm.mem_iff, List.mem_map]
    constructor
    · rintro ⟨e₀, he₀, rfl⟩
      exact ⟨e₀, (hcollected.mem e₀).mp he₀, rfl⟩
    · rintro ⟨e₀, he₀, rfl⟩
      exact ⟨e₀, (hcollected.mem e₀).mpr he₀, rfl⟩
  have hdevs : ∀ e ∈ map, e.1 ≠ swReg → e.2.axi4liteDevices ≠ [] := by
    intro e he hne
    obtain ⟨e₀, ⟨dev, -, -, rfl⟩ | ⟨dev, rest, -, rfl⟩, rfl⟩ := (hmem e).mp he
    · exact List.cons_ne_nil _ _
    · exact absurd rfl hne
  refine ⟨map, ⟨hmem, hsorted⟩, (map₁.map rounded).length, fun fuel hfuel => ?_⟩
  unfold axi4liteMemoryMap
  rw [hadd]
  show (roundSizes map₁ >>= _) = _
  rw [hround]
  show (orderLoop fuel none (map₁.map rounded) [] >>= _) = _
  rw [hloop fuel hfuel]
  exact assignAddresses_ok baseAddr ha hdevs

theorem Returns.unique {map' : MemoryMap} (h : Returns devices baseAddr alignment map)
    (h' : Returns devices baseAddr alignment map') : map = map' := by
  obtain ⟨n, hn⟩ := h
  obtain ⟨n', hn'⟩ := h'
  have heq := hn (max n n') (le_max_left _ _)
  rw [hn' (max n n') (le_max_right _ _)] at heq
  cases heq
  rfl

/-! ### What is in an interface -/

/-- The device of an interface of its own is at its start. -/
theorem placeAt_own {dev : Axi4liteDevice} (hne : dev.regname ≠ swReg) (address : Int) :
    (placeAt baseAddr address (rounded (dev.regname, ownInterface dev))).2.axi4liteDevices
      = [{ dev.kept with baseAddr := some (baseAddr + address) }] := if_neg hne

theorem placeAt_swReg (hl : Listed devices) {dev : Axi4liteDevice} {rest : List Axi4liteDevice}
    {reg : Register} (hsw : swRegs devices = dev :: rest) (hreg : dev.memoryMap = [reg])
    (address : Int) :
    (placeAt baseAddr address (rounded (swReg, swInterface dev rest))).2.axi4liteDevices
      = { dev.erased with baseAddr := some (baseAddr + address + reg.offset) }
        :: inRow (baseAddr + address + dev.nbytes) rest := by
  rw [← assignSwRegs_swInterface hl hsw hreg]
  unfold placeAt rounded
  simp only [if_true]

theorem kept_same (dev : Axi4liteDevice) :
    dev.kept.regname = dev.regname ∧ dev.kept.nbytes = dev.nbytes := by
  unfold Axi4liteDevice.kept
  split <;> exact ⟨rfl, rfl⟩

/-- The size of an interface comes from the bytes of its devices. -/
theorem Expected.bytes_eq (hl : Listed devices) {e : List UInt8 × Interface}
    (h : Expected devices e) (address : Int) :
    bytes (placeAt baseAddr address (rounded e)).2.axi4liteDevices = e.2.size := by
  rcases h with ⟨dev, hdev, -, rfl⟩ | ⟨dev, rest, hsw, rfl⟩
  · rw [placeAt_own (hl.names dev hdev), bytes_cons]
    show dev.kept.nbytes + 0 = dev.nbytes
    rw [(kept_same dev).2, Int.add_zero]
  · obtain ⟨reg, hreg, -⟩ := (swRegs_listed hl dev (by rw [hsw]; simp)).2
    rw [placeAt_swReg hl hsw hreg, bytes_cons, bytes_inRow]
    rfl

/-- All the devices of an interface have an address. -/
theorem Expected.placed (hl : Listed devices) {e : List UInt8 × Interface} (h : Expected devices e)
    (address : Int) :
    ∀ d ∈ (placeAt baseAddr address (rounded e)).2.axi4liteDevices, d.baseAddr.isSome = true := by
  rcases h with ⟨dev, hdev, -, rfl⟩ | ⟨dev, rest, hsw, rfl⟩
  · rw [placeAt_own (hl.names dev hdev)]
    simp
  · obtain ⟨reg, hreg, -⟩ := (swRegs_listed hl dev (by rw [hsw]; simp)).2
    rw [placeAt_swReg hl hsw hreg]
    exact List.forall_mem_cons.mpr ⟨rfl, inRow_placed⟩

/-- Every device is in its interface. -/
theorem exists_expected (baseAddr : Int) (hl : Listed devices) {dev : Axi4liteDevice}
    (hdev : dev ∈ devices) :
    ∃ e, Expected devices e ∧ e.1 = dev.interface ∧ ∀ address,
      ∃ d ∈ (placeAt baseAddr address (rounded e)).2.axi4liteDevices,
        d.regname = dev.regname ∧ d.nbytes = dev.nbytes := by
  unfold Axi4liteDevice.interface
  by_cases hsw : dev.IsSwReg
  · rw [if_pos hsw]
    have hmem : dev ∈ swRegs devices := List.mem_filter.mpr ⟨hdev, by simpa using hsw⟩
    obtain ⟨first, rest, hfirst⟩ := List.exists_cons_of_ne_nil (List.ne_nil_of_mem hmem)
    obtain ⟨reg, hreg, -⟩ := (swRegs_listed hl first (by rw [hfirst]; simp)).2
    refine ⟨_, Or.inr ⟨first, rest, hfirst, rfl⟩, rfl, fun address => ?_⟩
    rw [placeAt_swReg hl hfirst hreg]
    rw [hfirst] at hmem
    rcases List.mem_cons.mp hmem with rfl | hmem
    · exact ⟨_, List.mem_cons_self, rfl, rfl⟩
    · obtain ⟨d, hd, hsame⟩ := mem_inRow hmem
      exact ⟨d, List.mem_cons_of_mem _ hd, hsame⟩
  · rw [if_neg hsw]
    refine ⟨_, Or.inl ⟨dev, hdev, hsw, rfl⟩, rfl, fun address => ?_⟩
    rw [placeAt_own (hl.names dev hdev)]
    exact ⟨_, List.mem_singleton_self _, kept_same dev⟩

/-! ### The first software register -/

/-- The others are where they should be. -/
theorem inRow_inside {dev : Axi4liteDevice} {rest : List Axi4liteDevice} {size : Int}
    (hpos : ∀ d ∈ dev :: rest, 1 ≤ d.nbytes) (hsize : bytes (dev :: rest) ≤ size) (address : Int) :
    ∀ d ∈ inRow (address + dev.nbytes) rest, d.block.Inside ⟨address, size⟩ := by
  intro d hd
  have hrest : ∀ d ∈ rest, 1 ≤ d.nbytes := fun d hd => hpos d (List.mem_cons_of_mem _ hd)
  have hfirst := hpos dev List.mem_cons_self
  have hstart := (inRow_stacked _ hrest).start_le d.block (List.mem_map_of_mem hd)
  have hstop := inRow_stop_le hrest d hd
  rw [bytes_cons] at hsize
  constructor
  · show address ≤ d.block.start
    omega
  · show d.block.stop ≤ address + size
    omega

/--
The first software register is inside the interface and apart from the others exactly if its offset
is 0 or it lies behind them (and there is room).
-/
theorem first_iff {dev : Axi4liteDevice} {rest : List Axi4liteDevice} {size : Int}
    (hpos : ∀ d ∈ dev :: rest, 1 ≤ d.nbytes) (hsize : bytes (dev :: rest) ≤ size)
    (address offset : Int) :
    (Block.Inside ⟨address + offset, dev.nbytes⟩ ⟨address, size⟩ ∧
      ∀ d ∈ inRow (address + dev.nbytes) rest,
        Block.Apart ⟨address + offset, dev.nbytes⟩ d.block) ↔
      0 ≤ offset ∧ offset + dev.nbytes ≤ size ∧
        (rest = [] ∨ offset = 0 ∨ bytes (dev :: rest) ≤ offset) := by
  have hrest : ∀ d ∈ rest, 1 ≤ d.nbytes := fun d hd => hpos d (List.mem_cons_of_mem _ hd)
  have hfirst := hpos dev List.mem_cons_self
  have hinside : Block.Inside ⟨address + offset, dev.nbytes⟩ ⟨address, size⟩ ↔
      0 ≤ offset ∧ offset + dev.nbytes ≤ size := by
    show address ≤ address + offset ∧ address + offset + dev.nbytes ≤ address + size ↔ _
    omega
  have hbytes := bytes_cons dev rest
  rw [hinside, and_assoc]
  refine and_congr_right fun hoff => and_congr_right fun hroom => ?_
  constructor
  · intro hapart
    by_contra hbad
    rw [not_or, not_or] at hbad
    -- an address of the first register behind its own size belongs to another one, too
    have hmore : 1 ≤ bytes rest := by
      obtain ⟨d, ds, rfl⟩ := List.exists_cons_of_ne_nil hbad.1
      have := hrest d List.mem_cons_self
      have := bytes_nonneg fun d' hd' => hrest d' (List.mem_cons_of_mem _ hd')
      rw [bytes_cons]
      omega
    have hle : address + dev.nbytes ≤ address + max offset dev.nbytes := by
      have := le_max_right offset dev.nbytes
      omega
    have hlt : address + max offset dev.nbytes < address + dev.nbytes + bytes rest := by
      have := max_lt (show offset < dev.nbytes + bytes rest by omega)
        (show dev.nbytes < dev.nbytes + bytes rest by omega)
      omega
    obtain ⟨d, hd, hmem⟩ := inRow_covers hle hlt
    refine hapart d hd _ ⟨⟨?_, ?_⟩, hmem⟩
    · show address + offset ≤ _
      have := le_max_left offset dev.nbytes
      omega
    · show _ < address + offset + dev.nbytes
      have := max_lt (show offset < offset + dev.nbytes by omega)
        (show dev.nbytes < offset + dev.nbytes by omega)
      omega
  · rintro (rfl | rfl | hbehind) d hd
    · cases hd
    · refine Block.apart_of_stop_le ?_
      have := (inRow_stacked _ hrest).start_le d.block (List.mem_map_of_mem hd)
      show address + 0 + dev.nbytes ≤ d.block.start
      omega
    · refine (Block.apart_of_stop_le ?_).symm
      have := inRow_stop_le hrest d hd
      show d.block.stop ≤ address + offset
      omega

/-- The whole interface of the software registers. -/
theorem swReg_laid_iff (hl : Listed devices) {dev : Axi4liteDevice} {rest : List Axi4liteDevice}
    {reg : Register} (hsw : swRegs devices = dev :: rest) (hreg : dev.memoryMap = [reg])
    (address : Int) {e : List UInt8 × Interface}
    (he : e = placeAt baseAddr address (rounded (swReg, swInterface dev rest))) :
    ((∀ d ∈ e.2.axi4liteDevices, d.block.Inside ⟨baseAddr + e.2.block.start, e.2.size⟩) ∧
        e.2.axi4liteDevices.Pairwise fun a b => a.block.Apart b.block) ↔
      0 ≤ reg.offset ∧ reg.offset + dev.nbytes ≤ 2 ^ Nat.clog 2 (bytes (dev :: rest)).toNat ∧
        (rest = [] ∨ reg.offset = 0 ∨ bytes (dev :: rest) ≤ reg.offset) := by
  have hpos : ∀ d ∈ dev :: rest, 1 ≤ d.nbytes := by
    intro d hd
    rw [← hsw] at hd
    exact (swRegs_listed hl d hd).1
  have hrest : ∀ d ∈ rest, 1 ≤ d.nbytes := fun d hd => hpos d (List.mem_cons_of_mem _ hd)
  have hsize := (isLeast_pow_clog (bytes_nonneg hpos)).1.2
  have hstart : e.2.block.start = address := by rw [he]; rfl
  have hsize' : e.2.size = 2 ^ Nat.clog 2 (bytes (dev :: rest)).toNat := by rw [he]; rfl
  have hdevs : e.2.axi4liteDevices
      = { dev.erased with baseAddr := some (baseAddr + address + reg.offset) }
        :: inRow (baseAddr + address + dev.nbytes) rest := by
    rw [he]
    exact placeAt_swReg hl hsw hreg address
  have hpw := (inRow_stacked (baseAddr + address + dev.nbytes) hrest).pairwise
  rw [List.pairwise_map] at hpw
  rw [← first_iff hpos hsize (baseAddr + address), hstart, hsize', hdevs, List.forall_mem_cons,
    List.pairwise_cons]
  constructor
  · rintro ⟨⟨hin, -⟩, hap, -⟩
    exact ⟨hin, hap⟩
  · rintro ⟨hin, hap⟩
    exact ⟨⟨hin, inRow_inside hpos hsize _⟩, hap, hpw⟩

/-! ### The result -/

/-- With the registers of every software-register interface inside it and apart, every device is
mapped once, the interfaces lie apart, and each device lies in its own. -/
theorem Ordered.mapped (hl : Listed devices) (h : Ordered devices map) {k : Nat}
    (ha : alignment = 2 ^ k)
    (hinside : ∀ e ∈ placeAll baseAddr alignment 0 map,
      e.1 = swReg →
      (∀ d ∈ e.2.axi4liteDevices, d.block.Inside ⟨baseAddr + e.2.block.start, e.2.size⟩) ∧
      e.2.axi4liteDevices.Pairwise fun a b => a.block.Apart b.block) :
    Mapped devices baseAddr (placeAll baseAddr alignment 0 map) := by
  have hapos : 0 < alignment := by
    rw [ha]
    exact pow_pos two_pos k
  have hpow : ∀ e ∈ map, ∃ i : Nat, e.2.size = 2 ^ i := by
    intro e he
    obtain ⟨e₀, -, rfl⟩ := (h.mem e).mp he
    exact ⟨_, rfl⟩
  have hpos : ∀ e ∈ map, 0 < e.2.size := by
    intro e he
    obtain ⟨i, hi⟩ := hpow e he
    rw [hi]
    exact pow_pos two_pos i
  -- an interface of the result comes from an expected one
  have hfrom : ∀ e ∈ placeAll baseAddr alignment 0 map,
      ∃ e₀ address, Expected devices e₀ ∧ e = placeAt baseAddr address (rounded e₀) := by
    intro e he
    obtain ⟨e₁, he₁, address, rfl⟩ := of_mem_placeAll he
    obtain ⟨e₀, hexp, rfl⟩ := (h.mem e₁).mp he₁
    exact ⟨e₀, address, hexp, rfl⟩
  refine ⟨?_, ?_, ?_, ?_, ?_, ?_, fun e he hkey => (hinside e he hkey).2⟩
  · intro dev hdev
    obtain ⟨e₀, hexp, hkey, hdevs⟩ := exists_expected baseAddr hl hdev
    obtain ⟨address, hmem⟩ := mem_placeAll baseAddr alignment 0
      ((h.mem _).mpr ⟨e₀, hexp, rfl⟩)
    exact ⟨_, hmem, hkey, hdevs address⟩
  · intro e he
    obtain ⟨e₀, address, hexp, rfl⟩ := hfrom e he
    exact ⟨rfl, hexp.placed hl address⟩
  · have hpw := (placeAll_stacked baseAddr hapos 0 hpos).pairwise
    rw [List.pairwise_map] at hpw
    exact hpw
  · intro e he
    obtain ⟨e₀, address, hexp, rfl⟩ := hfrom e he
    rw [hexp.bytes_eq hl]
    exact isLeast_pow_clog (hexp.size_pos hl).le
  · exact placeAll_aligned k ha hpow h.sorted fun e _ => Int.dvd_zero _
  · intro e he d hd
    obtain ⟨e₀, address, hexp, rfl⟩ := hfrom e he
    rcases hexp with ⟨dev, hdev, hsw, rfl⟩ | ⟨dev, rest, hsw, rfl⟩
    · rw [placeAt_own (hl.names dev hdev), List.mem_singleton] at hd
      have hle := (isLeast_pow_clog (show 0 ≤ dev.nbytes by
        have := hl.nbytes dev hdev
        omega)).1.2
      rw [hd]
      refine ⟨le_rfl, ?_⟩
      show baseAddr + address + dev.kept.nbytes ≤ baseAddr + address + 2 ^ Nat.clog 2
        dev.nbytes.toNat
      rw [(kept_same dev).2]
      omega
    · exact (hinside _ he rfl).1 d hd

/-- A good memory map has the first software register in place. -/
theorem firstInPlace_of_mapped (hl : Listed devices) (ha : 0 < alignment)
    (hreturns : Returns devices baseAddr alignment map) (hmapped : Mapped devices baseAddr map) :
    FirstInPlace devices := by
  obtain ⟨map', hordered, hreturns'⟩ := returns_placeAll baseAddr hl ha
  rw [hreturns.unique hreturns'] at hmapped
  intro dev rest reg hsw hreg
  obtain ⟨address, hmem⟩ := mem_placeAll baseAddr alignment 0
    ((hordered.mem _).mpr ⟨_, Or.inr ⟨dev, rest, hsw, rfl⟩, rfl⟩)
  exact (swReg_laid_iff hl hsw hreg address rfl).mp
    ⟨hmapped.inside _ hmem, hmapped.registers _ hmem rfl⟩

/--
**The memory map is as it should be exactly if the first software register is in nobody's way.**

A call on listed devices with a power of two as alignment always returns.  The interfaces are apart,
as large as the least power of two that holds their devices, at multiples of their sizes, and every
device lies inside its own and apart from the others there, if and only if the offset of the first
software register (which nothing changes) is 0, or leaves it behind the others, inside the
interface.
-/
theorem axi4liteMemoryMap_iff (hl : Listed devices) {k : Nat} (ha : alignment = 2 ^ k) :
    (∃ map, Returns devices baseAddr alignment map ∧ Mapped devices baseAddr map) ↔
      FirstInPlace devices := by
  have hapos : 0 < alignment := by
    rw [ha]
    exact pow_pos two_pos k
  constructor
  · rintro ⟨map, hreturns, hmapped⟩
    exact firstInPlace_of_mapped hl hapos hreturns hmapped
  · intro hfirst
    obtain ⟨map, hordered, hreturns⟩ := returns_placeAll baseAddr hl hapos
    refine ⟨_, hreturns, hordered.mapped hl ha fun e he hkey => ?_⟩
    obtain ⟨e₁, he₁, address, rfl⟩ := of_mem_placeAll he
    obtain ⟨e₀, ⟨dev, hdev, -, rfl⟩ | ⟨dev, rest, hsw, rfl⟩, rfl⟩ := (hordered.mem e₁).mp he₁
    · exact absurd hkey (hl.names dev hdev)
    · obtain ⟨reg, hreg, -⟩ := (swRegs_listed hl dev (by rw [hsw]; simp)).2
      exact (swReg_laid_iff hl hsw hreg address rfl).mpr (hfirst dev rest reg hsw hreg)

theorem isSome_mapM {α β : Type} {f : α → Option β} : ∀ {l : List α},
    (∀ x ∈ l, (f x).isSome = true) → (l.mapM f).isSome = true
  | [], _ => rfl
  | x :: l, h => by
    obtain ⟨y, hy⟩ := Option.isSome_iff_exists.mp (h x List.mem_cons_self)
    obtain ⟨ys, hys⟩ := Option.isSome_iff_exists.mp
      (isSome_mapM fun x' hx' => h x' (List.mem_cons_of_mem _ hx'))
    rw [List.mapM_cons, hy, hys]
    rfl

end

/-! ## Two registers and a block RAM -/

/-- A device with one register. -/
def oneRegister (name : String) (nbytes typecode offset : Int) : Axi4liteDevice where
  regname := ascii name
  nbytes
  mode := .rw
  memoryMap := [{ name := ascii name, nbytes, offset, mode := .rw }]
  typecode

/-- Two software registers, the first with an offset, and a block RAM of 1000 bytes. -/
def board (offset : Int) : List Axi4liteDevice :=
  [oneRegister "ctrl" 4 typecodeSwreg offset, oneRegister "bram" 1000 typecodeBram 0,
    oneRegister "status" 4 typecodeSwreg 0]

theorem board_listed (offset : Int) : Listed (board offset) where
  distinct := by
    show [ascii "ctrl", ascii "bram", ascii "status"].Nodup
    decide
  names := by
    show ∀ dev ∈ [_, _, _], _
    simp only [List.forall_mem_cons]
    refine ⟨?_, ?_, ?_, by simp⟩
    all_goals
      show ascii _ ≠ swReg
      decide
  nbytes := by
    show ∀ dev ∈ [_, _, _], _
    simp [oneRegister]
  registers := by
    intro dev hdev _
    rcases List.mem_cons.mp hdev with rfl | hdev
    · exact ⟨_, rfl, rfl⟩
    · rcases List.mem_cons.mp hdev with rfl | hdev
      · exact ⟨_, rfl, rfl⟩
      · rw [List.mem_singleton.mp hdev]
        exact ⟨_, rfl, rfl⟩

theorem firstInPlace_board_iff (offset : Int) : FirstInPlace (board offset) ↔ offset = 0 := by
  have hsw : swRegs (board offset)
      = [oneRegister "ctrl" 4 typecodeSwreg offset, oneRegister "status" 4 typecodeSwreg 0] := rfl
  have hbytes : bytes [oneRegister "ctrl" 4 typecodeSwreg offset,
      oneRegister "status" 4 typecodeSwreg 0] = 8 := rfl
  have hsize : (2 : Int) ^ Nat.clog 2 (8 : Int).toNat = 8 := by decide
  constructor
  · intro h
    obtain ⟨hpos, hroom, hrest | hzero | hbehind⟩ := h _ _ _ hsw rfl
    · cases hrest
    · exact hzero
    · rw [hbytes, hsize] at hroom
      rw [hbytes] at hbehind
      have hroom' : offset + 4 ≤ 8 := hroom
      have hbehind' : 8 ≤ offset := hbehind
      omega
  · rintro rfl dev rest reg hdev hreg
    rw [hsw] at hdev
    cases hdev
    cases hreg
    rw [hbytes, hsize]
    exact ⟨le_rfl, by decide, Or.inr (Or.inl rfl)⟩

/-- The map is good without an offset. -/
theorem board_mapped :
    ∃ map, Returns (board 0) 0x40000000 4 map ∧ Mapped (board 0) 0x40000000 map :=
  (axi4liteMemoryMap_iff (board_listed 0) (k := 2) rfl).mpr ((firstInPlace_board_iff 0).mpr rfl)

/-- **With an offset of 4 both registers get the same address.** -/
theorem board_not_mapped :
    ¬ ∃ map, Returns (board 4) 0x40000000 4 map ∧ Mapped (board 4) 0x40000000 map := by
  rintro ⟨map, hreturns, hmapped⟩
  have hfirst := firstInPlace_of_mapped (board_listed 4) (by decide) hreturns hmapped
  exact absurd ((firstInPlace_board_iff 4).mp hfirst) (by decide)

end MlibDevel.Toolflow
