import MlibDevel.Lib.Layout
import MlibDevel.Verilog.WbSlots
import Mathlib.Algebra.Ring.Divisibility.Basic

/-!
# Where the Wishbone devices lie

The first pass puts devices where they ask to be and moves `base_addr` past every one that ends
above it; the second pass puts the others one above the other from there on.  With offsets that are
multiples of the alignment `base_addr` stays one, so a device that does not end above it ends below
it.

## Main results

- `wbCompute_ranges` : all the devices are apart from one another, aligned, large enough and not
  below the address given
-/

namespace MlibDevel.Verilog

open Lib

/-- The addresses of a device. -/
def PlacedDevice.block (d : PlacedDevice) : Block := ⟨d.baseAddr, d.highAddr + 1 - d.baseAddr⟩

/-- The offsets a device asks for. -/
def WbDevice.requestedBlock (d : WbDevice) : Block := ⟨d.reqOffset, d.nbytes⟩

/-- What a module must ask for. -/
structure Placeable (m : VerilogModule) (baseAddr alignment : Int) : Prop where
  alignment_pos : 0 < alignment
  four_dvd : 4 ∣ alignment
  base_nonneg : 0 ≤ baseAddr
  base_dvd : alignment ∣ baseAddr
  offset_nonneg : ∀ d ∈ m.requested, 0 ≤ d.reqOffset
  offset_dvd : ∀ d ∈ m.requested, alignment ∣ d.reqOffset
  nbytes_pos : ∀ inst ∈ m.asAdded, ∀ d ∈ inst.2.wbDevices, 1 ≤ d.nbytes
  apart : m.requested.Pairwise fun a b => a.requestedBlock.Apart b.requestedBlock

/-- How the devices should lie. -/
structure Laid (m : VerilogModule) (baseAddr alignment : Int) (out : WbState) : Prop where
  complete : ∀ inst ∈ m.asAdded, ∀ n dev, inst.2.wbDevices[n]? = some dev →
    ∃ e ∈ out.wbDevices, e.source = (inst.1, n, dev)
  apart : out.wbDevices.Pairwise fun a b => a.dev.block.Apart b.dev.block
  aligned : ∀ e ∈ out.wbDevices, alignment ∣ e.dev.baseAddr
  large : ∀ e ∈ out.wbDevices, (e.dev.nbytes : Int) ≤ e.dev.block.size
  above : ∀ e ∈ out.wbDevices, baseAddr ≤ e.dev.baseAddr

theorem roundedSize_eq (alignment : Int) (nbytes : Nat) :
    roundedSize alignment nbytes = ceilMul alignment nbytes := rfl

/-! ## One pass -/

section

variable {alignment : Int}

/-- The size of a placed device. -/
theorem PlacedFrom.size {pass : Pass} : ∀ {ds : List PlacedDevice} {b b' : Int},
    PlacedFrom alignment pass b ds b' →
    ∀ d ∈ ds, d.block.size = ceilMul alignment d.nbytes
  | d' :: ds, b, b', ⟨_, hhigh, hrest⟩, d, hd => by
    rcases List.mem_cons.mp hd with rfl | hd
    · show d.highAddr + 1 - d.baseAddr = _
      rw [hhigh, roundedSize_eq]
      omega
    · exact hrest.size d hd

/-- `base_addr` is above all the requested devices, and a multiple of the alignment. -/
theorem PlacedFrom.below {w : Int} (ha : 1 < alignment) (hw : alignment ∣ w) :
    ∀ {ds : List PlacedDevice} {b b' : Int},
    PlacedFrom alignment (.requested w) b ds b' → alignment ∣ b →
    (∀ d ∈ ds, alignment ∣ d.reqOffset) →
    alignment ∣ b' ∧ b ≤ b' ∧ ∀ d ∈ ds, d.block.stop ≤ b'
  | [], b, b', h, hb, _ => by
    rw [PlacedFrom] at h
    rw [h]
    exact ⟨hb, le_rfl, by simp⟩
  | d :: ds, b, b', ⟨hbase, hhigh, hrest⟩, hb, hoff => by
    have hbase' : d.baseAddr = w + d.reqOffset := hbase
    have hend : alignment ∣ d.highAddr + 1 := by
      rw [hhigh, hbase', Int.sub_add_cancel]
      exact dvd_add (dvd_add hw (hoff d List.mem_cons_self)) (dvd_ceilMul _ _)
    -- the end of the device is not one address above `base_addr`
    have hnext : alignment ∣ (Pass.requested w).next b d.highAddr
        ∧ b ≤ (Pass.requested w).next b d.highAddr
        ∧ d.highAddr + 1 ≤ (Pass.requested w).next b d.highAddr := by
      unfold Pass.next
      dsimp only
      split
      · exact ⟨hend, by omega, le_rfl⟩
      · next hle =>
        refine ⟨hb, le_rfl, ?_⟩
        by_contra hlt
        have hone : d.highAddr + 1 - b = 1 := by omega
        have hdvd := dvd_sub hend hb
        rw [hone] at hdvd
        have := Int.le_of_dvd one_pos hdvd
        omega
    obtain ⟨hb', hle, hds⟩ := hrest.below ha hw hnext.1
      (fun d' hd' => hoff d' (List.mem_cons_of_mem _ hd'))
    refine ⟨hb', hnext.2.1.trans hle, ?_⟩
    intro d' hd'
    rcases List.mem_cons.mp hd' with rfl | hd'
    · refine le_trans ?_ (hnext.2.2.trans hle)
      show d'.baseAddr + (d'.highAddr + 1 - d'.baseAddr) ≤ _
      omega
    · exact hds d' hd'

/-- The other devices are stacked from `base_addr` on. -/
theorem PlacedFrom.stacked (ha : 0 < alignment) : ∀ {ds : List PlacedDevice} {b b' : Int},
    PlacedFrom alignment .unrequested b ds b' → alignment ∣ b →
    Block.Stacked b (ds.map PlacedDevice.block) ∧ ∀ d ∈ ds, alignment ∣ d.baseAddr
  | [], _, _, _, _ => ⟨trivial, by simp⟩
  | d :: ds, b, b', ⟨hbase, hhigh, hrest⟩, hb => by
    have hbase' : d.baseAddr = b := hbase
    have hsize := roundedSize_nonneg alignment d.nbytes
    have hstop : d.block.stop = d.highAddr + 1 := by
      show d.baseAddr + (d.highAddr + 1 - d.baseAddr) = _
      omega
    have hend : alignment ∣ d.highAddr + 1 := by
      rw [hhigh, hbase', Int.sub_add_cancel]
      exact dvd_add hb (dvd_ceilMul _ _)
    obtain ⟨hst, hds⟩ := hrest.stacked ha hend
    refine ⟨⟨hbase'.ge, ?_, ?_⟩, ?_⟩
    · show 0 ≤ d.highAddr + 1 - d.baseAddr
      omega
    · rw [hstop]
      exact hst
    · intro d' hd'
      rcases List.mem_cons.mp hd' with rfl | hd'
      · rw [hbase']
        exact hb
      · exact hds d' hd'

end

/-! ## Both passes -/

section

variable {upper : String → String} {m : VerilogModule} {baseAddr alignment : Int} {out : WbState}

theorem mem_asAdded_of_requested {d : WbDevice} (h : d ∈ m.requested) :
    ∃ inst ∈ m.asAdded, d ∈ inst.2.wbDevices := by
  obtain ⟨inst, hi, hd⟩ := List.mem_flatMap.mp h
  exact ⟨inst, (byBlockName_perm m).mem_iff.mp hi, List.mem_of_mem_filter hd⟩

/-- Requested devices are as far apart as what they ask for. -/
theorem Placeable.requested_apart (hm : Placeable m baseAddr alignment) {d d' : PlacedDevice}
    (hd : d.toWbDevice ∈ m.requested) (hd' : d'.toWbDevice ∈ m.requested)
    (hbase : d.baseAddr = baseAddr + d.reqOffset) (hbase' : d'.baseAddr = baseAddr + d'.reqOffset)
    (hsize : d.block.size = ceilMul alignment d.nbytes)
    (hsize' : d'.block.size = ceilMul alignment d'.nbytes)
    (h : d.requestedBlock.Apart d'.requestedBlock) : d.block.Apart d'.block := by
  -- an aligned offset above what one of them asks for is above what it is given
  have hround : ∀ {x y : WbDevice}, x ∈ m.requested → y ∈ m.requested →
      x.requestedBlock.stop ≤ y.requestedBlock.start →
      x.reqOffset + ceilMul alignment x.nbytes ≤ y.reqOffset := by
    intro x y hx hy hle
    have hdvd : alignment ∣ y.reqOffset - x.reqOffset :=
      dvd_sub (hm.offset_dvd y hy) (hm.offset_dvd x hx)
    have hle' : x.reqOffset + x.nbytes ≤ y.reqOffset := hle
    have := ceilMul_le hm.alignment_pos hdvd (n := x.nbytes) (by omega)
    omega
  have hpos : ∀ {x : WbDevice}, x ∈ m.requested → 0 < x.requestedBlock.size := by
    intro x hx
    obtain ⟨inst, hi, hx'⟩ := mem_asAdded_of_requested hx
    have := hm.nbytes_pos inst hi x hx'
    show (0 : Int) < x.nbytes
    omega
  have hstart : ∀ {x : PlacedDevice}, x.block.start = x.baseAddr := rfl
  have hstop : ∀ {x : PlacedDevice}, x.block.stop = x.baseAddr + x.block.size := rfl
  rcases h.le_or_le (hpos hd) (hpos hd') with hle | hle
  · refine Block.apart_of_stop_le ?_
    have := hround hd hd' hle
    rw [hstop, hstart, hsize, hbase, hbase']
    omega
  · refine (Block.apart_of_stop_le ?_).symm
    have := hround hd' hd hle
    rw [hstop, hstart, hsize', hbase, hbase']
    omega

/-- The devices as the passes met them. -/
theorem Traversal.laid {first second : List Entry}
    (ht : Traversal upper m baseAddr alignment out first second)
    (hm : Placeable m baseAddr alignment) :
    (first ++ second).Pairwise (fun a b => a.dev.block.Apart b.dev.block)
    ∧ ∀ e ∈ first ++ second, alignment ∣ e.dev.baseAddr
      ∧ (e.dev.nbytes : Int) ≤ e.dev.block.size ∧ baseAddr ≤ e.dev.baseAddr := by
  obtain ⟨b, b', hpl₁, hpl₂⟩ := ht.placed
  obtain ⟨hbase, -⟩ := placedFrom_requested hpl₁
  have hone : 1 < alignment := by
    have := Int.le_of_dvd hm.alignment_pos hm.four_dvd
    omega
  have hreq : ∀ e ∈ first, e.dev.toWbDevice ∈ m.requested := by
    intro e he
    rw [← ht.first_devices, List.map_map]
    exact List.mem_map_of_mem he
  have hdev : ∀ e ∈ first, e.dev ∈ first.map (·.dev) := fun e he => List.mem_map_of_mem he
  have hdev' : ∀ e ∈ second, e.dev ∈ second.map (·.dev) := fun e he => List.mem_map_of_mem he
  obtain ⟨hb, hle, hstop⟩ := hpl₁.below hone hm.base_dvd hm.base_dvd (by
    intro d hd
    obtain ⟨e, he, rfl⟩ := List.mem_map.mp hd
    exact hm.offset_dvd _ (hreq e he))
  obtain ⟨hstacked, haligned⟩ := hpl₂.stacked hm.alignment_pos hb
  have hsecond : ∀ e ∈ second, b ≤ e.dev.baseAddr := fun e he =>
    hstacked.start_le e.dev.block (List.mem_map_of_mem (hdev' e he))
  constructor
  · refine List.pairwise_append.mpr ⟨?_, ?_, ?_⟩
    · have hpw := hm.apart
      rw [← ht.first_devices, List.map_map, List.pairwise_map] at hpw
      refine hpw.imp_of_mem fun {x y} hx hy hxy => ?_
      exact hm.requested_apart (hreq x hx) (hreq y hy) (hbase _ (hdev x hx)) (hbase _ (hdev y hy))
        (hpl₁.size _ (hdev x hx)) (hpl₁.size _ (hdev y hy)) hxy
    · have hpw := hstacked.pairwise
      rw [List.map_map, List.pairwise_map] at hpw
      exact hpw
    · intro x hx y hy
      exact Block.apart_of_stop_le ((hstop _ (hdev x hx)).trans (hsecond y hy))
  · intro e he
    rcases List.mem_append.mp he with he | he
    · have hb₀ := hbase _ (hdev e he)
      have hoff := hm.offset_nonneg _ (hreq e he)
      refine ⟨?_, ?_, by omega⟩
      · rw [hb₀]
        exact dvd_add hm.base_dvd (hm.offset_dvd _ (hreq e he))
      · rw [hpl₁.size _ (hdev e he)]
        exact le_ceilMul hm.alignment_pos _
    · refine ⟨haligned _ (hdev' e he), ?_, hle.trans (hsecond e he)⟩
      rw [hpl₂.size _ (hdev' e he)]
      exact le_ceilMul hm.alignment_pos _

/--
**All the devices get addresses of their own.**

After a call that returns, the ranges of all the devices, requested or not, are apart from one
another, start at multiples of the alignment and not below the address given, and are large enough.
-/
theorem wbCompute_ranges (h : wbCompute upper m baseAddr alignment = .ok out)
    (hm : Placeable m baseAddr alignment) : Laid m baseAddr alignment out := by
  obtain ⟨first, second, ht⟩ := wbCompute_traversal h
  obtain ⟨hapart, heach⟩ := ht.laid hm
  have hperm : out.wbDevices.Perm (first ++ second) := by
    rw [ht.sorted_eq]
    exact List.perm_insertionSort _ _
  have heach' : ∀ e ∈ out.wbDevices, alignment ∣ e.dev.baseAddr
      ∧ (e.dev.nbytes : Int) ≤ e.dev.block.size ∧ baseAddr ≤ e.dev.baseAddr :=
    fun e he => heach e (hperm.mem_iff.mp he)
  refine ⟨?_, ?_, fun e he => (heach' e he).1, fun e he => (heach' e he).2.1,
    fun e he => (heach' e he).2.2⟩
  · intro inst hi n dev hdev
    obtain ⟨e, he, hsrc⟩ := ht.mem_iff.mpr ⟨inst, hi, rfl, hdev⟩
    exact ⟨e, hperm.mem_iff.mpr he, hsrc⟩
  · exact (hperm.pairwise_iff fun hab => hab.symm).mpr hapart

end

/-! ## A core and a register -/

/-- A 40 GbE core on port 1, and a register of five bytes that requests no offset. -/
def gbeAndRegister : VerilogModule where
  instances :=
    [("reg", [("reg_inst",
      { wbDevices :=
          [{ regname := "reg", nbytes := 5, hdlSuffix := "", hdlCandrSuffix := "",
             reqOffset := -1 }]
        ports := ∅ })]),
     ("gbe", [("gbe_inst", gbeInstance "gbe" 1)])]
  localparams := ∅
  topfile := false
  baseWbSlaves := 0
  maxDevicesPerArb := none
  names_nodup := by
    simp only [List.flatMap_cons, List.flatMap_nil, List.map_cons, List.map_nil,
      List.append_nil, List.cons_append, List.nil_append]
    decide

theorem gbeAndRegister_requested :
    gbeAndRegister.requested = (gbeInstance "gbe" 1).wbDevices := by decide +kernel

theorem gbeAndRegister_placeable : Placeable gbeAndRegister 0x10000 4 where
  alignment_pos := by decide
  four_dvd := dvd_rfl
  base_nonneg := by decide
  base_dvd := ⟨0x4000, rfl⟩
  offset_nonneg := by
    rw [gbeAndRegister_requested]
    decide
  offset_dvd := by
    rw [gbeAndRegister_requested]
    decide
  nbytes_pos := by decide
  apart := by
    rw [gbeAndRegister_requested]
    exact List.pairwise_singleton _ _

/-- They get addresses of their own. -/
theorem gbeAndRegister_ranges :
    ∃ out, wbCompute String.toUpper gbeAndRegister 0x10000 4 = .ok out
      ∧ Laid gbeAndRegister 0x10000 4 out := by
  have hreturns : (wbCompute String.toUpper gbeAndRegister 0x10000 4).toBool = true := by
    decide +kernel
  cases hw : wbCompute String.toUpper gbeAndRegister 0x10000 4 with
  | error e =>
    rw [hw] at hreturns
    cases hreturns
  | ok out => exact ⟨out, rfl, wbCompute_ranges hw gbeAndRegister_placeable⟩

end MlibDevel.Verilog
