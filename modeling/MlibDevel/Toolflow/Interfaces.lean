import MlibDevel.Toolflow.MemoryMap
import Mathlib.Algebra.BigOperators.Group.List.Basic
import Mathlib.Algebra.Order.BigOperators.Group.List
import Mathlib.Tactic.Linarith

/-!
# The interfaces of the memory map

What the loops of `axi4lite_memory_map` make of a list of devices: which interfaces there are after
the first loop, and in what order they are after the last but one.

## Main results

- `addDevices_ok` : an interface for every device that is no software register, and one for those
- `orderLoop_ok` : the `while` loop ends and has sorted the interfaces by size
-/

namespace MlibDevel.Toolflow

open Lib
open Jam (ascii)

/-- A device that goes into the interface of the software registers. -/
def Axi4liteDevice.IsSwReg (dev : Axi4liteDevice) : Prop := dev.typecode = typecodeSwreg

instance (dev : Axi4liteDevice) : Decidable dev.IsSwReg :=
  inferInstanceAs (Decidable (dev.typecode = typecodeSwreg))

/-- The software registers. -/
def swRegs (devices : List Axi4liteDevice) : List Axi4liteDevice :=
  devices.filter fun dev => dev.IsSwReg

/-- The bytes of some devices. -/
def bytes (devs : List Axi4liteDevice) : Int := (devs.map fun dev => dev.nbytes).sum

/--
What is asked of the devices: names of their own, none of them `sw_reg`, at least one byte, and for
a software register a memory map of one register with the name of the device.
-/
structure Listed (devices : List Axi4liteDevice) : Prop where
  distinct : (devices.map fun dev => dev.regname).Nodup
  names : ∀ dev ∈ devices, dev.regname ≠ swReg
  nbytes : ∀ dev ∈ devices, 1 ≤ dev.nbytes
  registers : ∀ dev ∈ devices, dev.IsSwReg → ∃ reg, dev.memoryMap = [reg] ∧ reg.name = dev.regname

/-- The device as it stands in an interface of its own. -/
def Axi4liteDevice.kept (dev : Axi4liteDevice) : Axi4liteDevice :=
  if dev.typecode = typecodeBram ∨ dev.axi4liteMode = ascii "raw" then dev.erased else dev

/-- The interface of a device that is no software register. -/
def ownInterface (dev : Axi4liteDevice) : Interface := ⟨dev.nbytes, dev.memoryMap, [dev.kept], none⟩

/-- The registers of software registers after the first, one after the other from `offset` on. -/
def offsetRegs : Int → List Axi4liteDevice → List Register
  | _, [] => []
  | offset, dev :: devs =>
    dev.memoryMap.map (fun reg => { reg with offset }) ++ offsetRegs (offset + dev.nbytes) devs

/-- The interface of the software registers; the first one keeps its own offset. -/
def swInterface (dev : Axi4liteDevice) (devs : List Axi4liteDevice) : Interface :=
  ⟨bytes (dev :: devs), dev.memoryMap ++ offsetRegs dev.nbytes devs,
    (dev :: devs).map Axi4liteDevice.erased, none⟩

/-! ## Collecting -/

/-- The items of the memory map after some devices. -/
def Expected (devs : List Axi4liteDevice) (e : List UInt8 × Interface) : Prop :=
  (∃ dev ∈ devs, ¬ dev.IsSwReg ∧ e = (dev.regname, ownInterface dev)) ∨
    ∃ dev rest, swRegs devs = dev :: rest ∧ e = (swReg, swInterface dev rest)

/-- The memory map after some devices. -/
structure Collected (devs : List Axi4liteDevice) (map : MemoryMap) : Prop where
  nodup : (Dict.keys map).Nodup
  mem : ∀ e, e ∈ map ↔ Expected devs e

theorem bytes_cons (dev : Axi4liteDevice) (devs : List Axi4liteDevice) :
    bytes (dev :: devs) = dev.nbytes + bytes devs := List.sum_cons

theorem bytes_concat (devs : List Axi4liteDevice) (dev : Axi4liteDevice) :
    bytes (devs ++ [dev]) = bytes devs + dev.nbytes := by
  unfold bytes
  rw [List.map_append, List.sum_append, List.map_singleton, List.sum_singleton]

theorem swRegs_concat_of_swReg {dev : Axi4liteDevice} (devs : List Axi4liteDevice)
    (h : dev.IsSwReg) : swRegs (devs ++ [dev]) = swRegs devs ++ [dev] := by
  unfold swRegs
  rw [List.filter_append, List.filter_cons_of_pos (by simpa using h)]
  rfl

theorem swRegs_concat_of_not {dev : Axi4liteDevice} (devs : List Axi4liteDevice)
    (h : ¬ dev.IsSwReg) : swRegs (devs ++ [dev]) = swRegs devs := by
  unfold swRegs
  rw [List.filter_append, List.filter_cons_of_neg (by simpa using h)]
  exact List.append_nil _

theorem offsetRegs_concat (dev : Axi4liteDevice) : ∀ (devs : List Axi4liteDevice) (offset : Int),
    offsetRegs offset (devs ++ [dev])
      = offsetRegs offset devs
        ++ dev.memoryMap.map fun reg => { reg with offset := offset + bytes devs }
  | [], offset => by simp [offsetRegs, bytes]
  | d :: devs, offset => by
    rw [List.cons_append, offsetRegs, offsetRegs_concat dev devs, offsetRegs, bytes_cons,
      List.append_assoc, Int.add_assoc]

/-- A further software register at the end of their interface. -/
theorem swInterface_concat (first dev : Axi4liteDevice) (rest : List Axi4liteDevice) :
    swInterface first (rest ++ [dev])
      = { swInterface first rest with
          size := (swInterface first rest).size + dev.nbytes
          memoryMap := (swInterface first rest).memoryMap
            ++ dev.memoryMap.map fun reg => { reg with offset := (swInterface first rest).size }
          axi4liteDevices := (swInterface first rest).axi4liteDevices ++ [dev.erased] } := by
  unfold swInterface
  rw [offsetRegs_concat, ← List.cons_append, bytes_concat, bytes_cons, List.map_append]
  simp

variable {devs : List Axi4liteDevice} {map : MemoryMap} {dev : Axi4liteDevice}

theorem expected_iff {first : Axi4liteDevice} {rest : List Axi4liteDevice}
    {e : List UInt8 × Interface} (h : swRegs devs = first :: rest) :
    Expected devs e ↔ (∃ dev ∈ devs, ¬ dev.IsSwReg ∧ e = (dev.regname, ownInterface dev)) ∨
      e = (swReg, swInterface first rest) := by
  unfold Expected
  rw [h]
  refine or_congr_right ⟨?_, fun he => ⟨first, rest, rfl, he⟩⟩
  rintro ⟨dev, rest', heq, he⟩
  cases heq
  exact he

theorem Collected.not_mem_swReg (h : Collected devs map) (hl : ∀ dev ∈ devs, dev.regname ≠ swReg)
    (hnone : swRegs devs = []) : swReg ∉ Dict.keys map := by
  intro hk
  obtain ⟨e, he, hkey⟩ := List.mem_map.mp hk
  rcases (h.mem e).mp he with ⟨dev, hdev, -, rfl⟩ | ⟨dev, rest, hsw, -⟩
  · exact hl dev hdev hkey
  · rw [hnone] at hsw
    cases hsw

/-- A software register. -/
theorem Collected.add_swReg (h : Collected devs map) (hl : Listed (devs ++ [dev]))
    (hsw : dev.IsSwReg) :
    ∃ map', addDevice map dev = .ok map' ∧ Collected (devs ++ [dev]) map' := by
  obtain ⟨reg, hreg, -⟩ := hl.registers dev (by simp) hsw
  have hnames : ∀ d ∈ devs, d.regname ≠ swReg := fun d hd => hl.names d (by simp [hd])
  -- other items stay as they are
  have hother : ∀ {i : Interface}, (∀ e, Expected (devs ++ [dev]) e ↔
      e = (swReg, i) ∨ e ∈ map ∧ e.1 ≠ swReg) →
      Collected (devs ++ [dev]) (Dict.set swReg i map) := fun hexp =>
    ⟨Dict.nodup_set h.nodup, fun e => by rw [Dict.mem_set h.nodup, hexp]⟩
  have hown : ∀ e, (∃ d ∈ devs ++ [dev], ¬ d.IsSwReg ∧ e = (d.regname, ownInterface d)) ↔
      e ∈ map ∧ e.1 ≠ swReg := by
    intro e
    rw [h.mem e]
    constructor
    · rintro ⟨d, hd, hd', rfl⟩
      rcases List.mem_append.mp hd with hd | hd
      · exact ⟨Or.inl ⟨d, hd, hd', rfl⟩, hnames d hd⟩
      · rw [List.mem_singleton.mp hd] at hd'
        exact absurd hsw hd'
    · rintro ⟨⟨d, hd, hd', rfl⟩ | ⟨d, rest, -, rfl⟩, hne⟩
      · exact ⟨d, List.mem_append_left _ hd, hd', rfl⟩
      · exact absurd rfl hne
  unfold addDevice
  rw [if_pos (show dev.typecode = typecodeSwreg from hsw)]
  cases hfirst : swRegs devs with
  | nil =>
    have hsws : swRegs (devs ++ [dev]) = [dev] := by
      rw [swRegs_concat_of_swReg devs hsw, hfirst]
      rfl
    have hi : swInterface dev [] = ⟨dev.nbytes, dev.memoryMap, [dev.erased], none⟩ := by
      simp [swInterface, bytes, offsetRegs]
    rw [Dict.get?_eq_none (h.not_mem_swReg hnames hfirst)]
    refine ⟨_, rfl, hother fun e => ?_⟩
    rw [expected_iff hsws, hown, hi]
    exact or_comm
  | cons first rest =>
    have hsws : swRegs (devs ++ [dev]) = first :: (rest ++ [dev]) := by
      rw [swRegs_concat_of_swReg devs hsw, hfirst]
      rfl
    have hmem := (h.mem _).mpr (Or.inr ⟨first, rest, hfirst, rfl⟩)
    rw [Dict.get?_eq_some h.nodup hmem, hreg]
    refine ⟨_, rfl, hother fun e => ?_⟩
    rw [expected_iff hsws, hown, swInterface_concat, hreg]
    exact or_comm

theorem addDevice_of_not (map : MemoryMap) (h : ¬ dev.IsSwReg) :
    addDevice map dev = .ok (Dict.set dev.regname (ownInterface dev) map) := by
  unfold addDevice
  rw [if_neg (show ¬ dev.typecode = typecodeSwreg from h)]
  unfold ownInterface Axi4liteDevice.kept
  split
  · next hb => rw [if_pos (Or.inl hb)]
  · next hb =>
    split
    · next hr => rw [if_pos (Or.inr hr)]
    · next hr => rw [if_neg (not_or.mpr ⟨hb, hr⟩)]

/-- Another device. -/
theorem Collected.add_own (h : Collected devs map) (hl : Listed (devs ++ [dev]))
    (hsw : ¬ dev.IsSwReg) :
    ∃ map', addDevice map dev = .ok map' ∧ Collected (devs ++ [dev]) map' := by
  refine ⟨_, addDevice_of_not map hsw, Dict.nodup_set h.nodup, fun e => ?_⟩
  -- no item has the name yet
  have hne : ∀ e ∈ map, e.1 ≠ dev.regname := by
    intro e he
    have hdistinct := hl.distinct
    rw [List.map_append, List.nodup_append] at hdistinct
    rcases (h.mem e).mp he with ⟨d, hd, -, rfl⟩ | ⟨d, rest, -, rfl⟩
    · exact hdistinct.2.2 _ (List.mem_map_of_mem hd) _ (by simp)
    · exact (hl.names dev (by simp)).symm
  rw [Dict.mem_set h.nodup, and_iff_left_of_imp (hne e), h.mem e]
  unfold Expected
  rw [swRegs_concat_of_not devs hsw]
  constructor
  · rintro (rfl | ⟨d, hd, hd', rfl⟩ | hrest)
    · exact Or.inl ⟨dev, by simp, hsw, rfl⟩
    · exact Or.inl ⟨d, List.mem_append_left _ hd, hd', rfl⟩
    · exact Or.inr hrest
  · rintro (⟨d, hd, hd', rfl⟩ | hrest)
    · rcases List.mem_append.mp hd with hd | hd
      · exact Or.inr (Or.inl ⟨d, hd, hd', rfl⟩)
      · rw [List.mem_singleton.mp hd]
        exact Or.inl rfl
    · exact Or.inr (Or.inr hrest)

theorem Listed.of_append {devs' : List Axi4liteDevice} (h : Listed (devs ++ devs')) :
    Listed devs where
  distinct := by
    have hdistinct := h.distinct
    rw [List.map_append] at hdistinct
    exact hdistinct.of_append_left
  names dev hdev := h.names dev (List.mem_append_left _ hdev)
  nbytes dev hdev := h.nbytes dev (List.mem_append_left _ hdev)
  registers dev hdev := h.registers dev (List.mem_append_left _ hdev)

/-- The whole loop. -/
theorem Collected.add_all : ∀ {rest devs : List Axi4liteDevice} {map : MemoryMap},
    Collected devs map → Listed (devs ++ rest) →
    ∃ map', addDevices map rest = .ok map' ∧ Collected (devs ++ rest) map'
  | [], devs, map, h, _ => ⟨map, rfl, by rwa [List.append_nil]⟩
  | dev :: rest, devs, map, h, hl => by
    have hsplit : devs ++ dev :: rest = (devs ++ [dev]) ++ rest := by simp
    rw [hsplit] at hl ⊢
    obtain ⟨map₁, hadd, h₁⟩ : ∃ map', addDevice map dev = .ok map' ∧
        Collected (devs ++ [dev]) map' := by
      by_cases hsw : dev.IsSwReg
      · exact h.add_swReg hl.of_append hsw
      · exact h.add_own hl.of_append hsw
    obtain ⟨map', hrest, h'⟩ := h₁.add_all hl
    refine ⟨map', ?_, h'⟩
    rw [addDevices, hadd]
    exact hrest

theorem addDevices_ok {devices : List Axi4liteDevice} (hl : Listed devices) :
    ∃ map, addDevices [] devices = .ok map ∧ Collected devices map := by
  have hstart : Collected [] [] := by
    refine ⟨List.nodup_nil, fun e => ⟨fun he => absurd he List.not_mem_nil, ?_⟩⟩
    rintro (⟨d, hd, -⟩ | ⟨d, rest, hsw, -⟩)
    · exact absurd hd List.not_mem_nil
    · cases hsw
  exact hstart.add_all hl

/-! ## Rounding and ordering -/

/-- An interface with its size rounded up. -/
def rounded (e : List UInt8 × Interface) : List UInt8 × Interface :=
  (e.1, { e.2 with size := 2 ^ Nat.clog 2 e.2.size.toNat })

theorem roundSizes_ok : ∀ {map : MemoryMap}, (∀ e ∈ map, 0 < e.2.size) →
    roundSizes map = .ok (map.map rounded)
  | [], _ => rfl
  | (key, val) :: map, h => by
    have hsize : roundSize val.size = .ok (2 ^ Nat.clog 2 val.size.toNat) := by
      unfold roundSize
      rw [if_neg (not_le.mpr (h _ List.mem_cons_self))]
    rw [roundSizes, hsize, roundSizes_ok fun e he => h e (List.mem_cons_of_mem _ he)]
    rfl

/-- **The `while` loop ends** after as many rounds as there are interfaces, the largest first. -/
theorem orderLoop_ok : ∀ (n : Nat) (maxKey : Option (List UInt8)) (map ordered : MemoryMap),
    map.length = n → (Dict.keys (ordered ++ map)).Nodup → (∀ e ∈ map, 0 < e.2.size) →
    ∃ out, (∀ fuel, n ≤ fuel → orderLoop fuel maxKey map ordered = .ok (ordered ++ out)) ∧
      out.Perm map ∧ out.Pairwise fun a b => b.2.size ≤ a.2.size
  | n, maxKey, [], ordered, _, _, _ => by
    refine ⟨[], fun fuel _ => ?_, List.Perm.refl _, List.Pairwise.nil⟩
    rw [List.append_nil]
    cases fuel <;> rfl
  | n + 1, maxKey, e :: map, ordered, hlength, hkeys, hpos => by
    obtain ⟨⟨key, val⟩, hmem, hscan, hmax⟩ :=
      Dict.scan_of_lt Interface.size (r := (0, maxKey)) (e := e) (d := e :: map) List.mem_cons_self
        (hpos e List.mem_cons_self)
    have hnodup : (Dict.keys (e :: map)).Nodup := by
      unfold Dict.keys at hkeys ⊢
      rw [List.map_append] at hkeys
      exact hkeys.of_append_right
    obtain ⟨map', hpop, hperm⟩ := Dict.pop?_of_mem hnodup hmem
    have hset : Dict.set key val ordered = ordered ++ [(key, val)] := by
      refine Dict.set_of_not_mem fun hk => ?_
      unfold Dict.keys at hkeys hk
      rw [List.map_append, List.nodup_append] at hkeys
      exact hkeys.2.2 key hk key (Dict.mem_keys_of_mem hmem) rfl
    have hkeys' : (Dict.keys ((ordered ++ [(key, val)]) ++ map')).Nodup := by
      have hp : (ordered ++ (e :: map)).Perm ((ordered ++ [(key, val)]) ++ map') := by
        rw [List.append_assoc]
        exact hperm.append_left ordered
      exact (hp.map Prod.fst).nodup_iff.mp hkeys
    have hlength' : map'.length = n := by
      have := hperm.length_eq
      simp only [List.length_cons] at this hlength
      omega
    have hsub : ∀ e' ∈ map', e' ∈ e :: map := fun e' he' =>
      hperm.mem_iff.mpr (List.mem_cons_of_mem _ he')
    obtain ⟨out, hout, hperm', hsorted⟩ := orderLoop_ok n (some key) map' (ordered ++ [(key, val)])
      hlength' hkeys' fun e' he' => hpos e' (hsub e' he')
    refine ⟨(key, val) :: out, fun fuel hfuel => ?_, (hperm'.cons _).trans hperm.symm, ?_⟩
    · obtain ⟨fuel, rfl⟩ := Nat.exists_eq_succ_of_ne_zero (show fuel ≠ 0 by omega)
      rw [orderLoop, hscan]
      dsimp only
      rw [hpop]
      dsimp only
      rw [hset, hout fuel (by omega), List.append_assoc]
      rfl
    · refine List.pairwise_cons.mpr ⟨fun e' he' => ?_, hsorted⟩
      exact hmax e' (hsub e' (hperm'.mem_iff.mp he'))

end MlibDevel.Toolflow
