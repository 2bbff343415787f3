import MlibDevel.Verilog.WbNumbers
import Mathlib.Tactic.NormNum

/-!
# Slot numbers and address tables

`wb_compute` numbers the devices in the order in which it meets them and sorts the address tables
by base address.  A device's slot in the arbiter is the one its number says only if the two orders
agree.  This module states exactly when they do.

## Main results

- `wbCompute_slots_iff` : all slots agree exactly when the requested offsets do not decrease in the
  order of the first pass (and no empty requested device lies above where the others start)
-/

namespace MlibDevel.Verilog

open Lib

/-! ## When the orders agree -/

/-- The devices that request an offset, in the order of the first pass. -/
def VerilogModule.requested (m : VerilogModule) : List WbDevice :=
  m.byBlockName.flatMap fun inst => inst.2.wbDevices.filter fun d => d.reqOffset ≠ -1

/-- The devices that do not, in the order of the second pass. -/
def VerilogModule.unrequested (m : VerilogModule) : List WbDevice :=
  m.asAdded.flatMap fun inst => inst.2.wbDevices.filter fun d => d.reqOffset = -1

/-- The first address above the requested devices (and not below `free`). -/
def firstFree (baseAddr alignment : Int) (free : Int) (devs : List WbDevice) : Int :=
  devs.foldl (fun free d =>
    let high := baseAddr + d.reqOffset + roundedSize alignment d.nbytes - 1
    if high > free then high + 1 else free) free

/--
The requested offsets do not decrease in the order of the first pass; and when there are other
devices too, no requested device of size zero lies above the address from which those are placed.
-/
def InOrder (m : VerilogModule) (baseAddr alignment : Int) : Prop :=
  m.requested.Pairwise (fun a b => a.reqOffset ≤ b.reqOffset)
  ∧ (m.unrequested ≠ [] → ∀ d ∈ m.requested, roundedSize alignment d.nbytes = 0 →
      baseAddr + d.reqOffset ≤ firstFree baseAddr alignment baseAddr m.requested)

/--
Every device's slot number is its position in the sorted `wb_devices` (after the slaves of the
top file), and its sub-arbiter is that position divided by the limit.
-/
def SlotsAgree (upper : String → String) (m : VerilogModule) (out : WbState) : Prop :=
  ∀ inst ∈ m.asAdded, ∀ n dev, inst.2.wbDevices[n]? = some dev →
    ∃ i e, out.wbDevices[i]? = some e ∧ e.source = (inst.1, n, dev)
      ∧ slotOf out.localparams (wbId upper inst.1 n) = some ((i + m.baseWbSlaves : Nat) : Int)
      ∧ ∀ k, m.maxDevicesPerArb = some k → e.dev.subArbId = ((i / k : Nat) : Int)

/-! ## Addresses -/

theorem roundedSize_nonneg (alignment : Int) (nbytes : Nat) :
    0 ≤ roundedSize alignment nbytes := by
  have hn : (-(nbytes : Int)) ≤ 0 := by omega
  rcases le_total 0 alignment with hpos | hneg
  · have hdiv : Int.fdiv (-nbytes) alignment ≤ 0 := by
      rw [← Int.neg_fdiv_neg]
      exact Int.fdiv_nonpos_of_nonneg_of_nonpos (by omega) (by omega)
    exact mul_nonneg hpos (by omega)
  · have hdiv := Int.fdiv_nonneg_of_nonpos_of_nonpos hn hneg
    exact mul_nonneg_of_nonpos_of_nonpos hneg (by omega)

theorem firstFree_cons (baseAddr alignment free : Int) (d : WbDevice) (devs : List WbDevice) :
    firstFree baseAddr alignment free (d :: devs) =
      firstFree baseAddr alignment
        ((Pass.requested baseAddr).next free
          (baseAddr + d.reqOffset + roundedSize alignment d.nbytes - 1)) devs := rfl

/-- Requested devices are at their offsets, and `base_addr` moves past them. -/
theorem placedFrom_requested {baseAddr alignment : Int} : ∀ {ds : List PlacedDevice} {b b' : Int},
    PlacedFrom alignment (.requested baseAddr) b ds b' →
    (∀ d ∈ ds, d.baseAddr = baseAddr + d.reqOffset)
    ∧ b' = firstFree baseAddr alignment b (ds.map (·.toWbDevice))
  | [], b, b', h => ⟨by simp, h⟩
  | d :: ds, b, b', ⟨hbase, hhigh, hrest⟩ => by
    obtain ⟨hds, hb'⟩ := placedFrom_requested hrest
    have hd : d.baseAddr = baseAddr + d.reqOffset := hbase
    refine ⟨?_, ?_⟩
    · intro d' hd'
      rcases List.mem_cons.mp hd' with rfl | hd'
      · exact hd
      · exact hds d' hd'
    · rw [List.map_cons, firstFree_cons, hb', hhigh, hd]

/-- The other devices follow one another from `base_addr` on. -/
theorem placedFrom_unrequested {alignment : Int} : ∀ {ds : List PlacedDevice} {b b' : Int},
    PlacedFrom alignment .unrequested b ds b' →
    (∀ d ∈ ds, b ≤ d.baseAddr) ∧ ds.Pairwise (fun a b => a.baseAddr ≤ b.baseAddr)
    ∧ ∀ d, ds.head? = some d → d.baseAddr = b
  | [], _, _, _ => by simp
  | d :: ds, b, b', ⟨hbase, hhigh, hrest⟩ => by
    obtain ⟨hds, hpw, -⟩ := placedFrom_unrequested hrest
    have hd : d.baseAddr = b := hbase
    have hle : d.baseAddr ≤ d.highAddr + 1 := by
      have := roundedSize_nonneg alignment d.nbytes
      omega
    have hnext : ∀ d' ∈ ds, d.baseAddr ≤ d'.baseAddr := fun d' hd' => hle.trans (hds d' hd')
    refine ⟨?_, List.pairwise_cons.mpr ⟨hnext, hpw⟩, ?_⟩
    · intro d' hd'
      rcases List.mem_cons.mp hd' with rfl | hd'
      · exact hd.ge
      · exact hd.ge.trans (hnext d' hd')
    · intro d' hd'
      rw [List.head?_cons, Option.some.injEq] at hd'
      rw [← hd']
      exact hd

theorem le_firstFree (baseAddr alignment : Int) : ∀ (devs : List WbDevice) (free : Int),
    free ≤ firstFree baseAddr alignment free devs
  | [], free => le_rfl
  | d :: devs, free => by
    rw [firstFree_cons]
    refine le_trans ?_ (le_firstFree baseAddr alignment devs _)
    unfold Pass.next
    dsimp only
    split <;> omega

/-- A requested device that is not empty lies below where the others start. -/
theorem base_le_firstFree (baseAddr alignment : Int) : ∀ {devs : List WbDevice} (free : Int)
    {d : WbDevice}, d ∈ devs → roundedSize alignment d.nbytes ≠ 0 →
    baseAddr + d.reqOffset ≤ firstFree baseAddr alignment free devs
  | d' :: devs, free, d, hd, hsize => by
    rw [firstFree_cons]
    rcases List.mem_cons.mp hd with rfl | hd
    · refine le_trans ?_ (le_firstFree baseAddr alignment devs _)
      have := roundedSize_nonneg alignment d.nbytes
      unfold Pass.next
      dsimp only
      split <;> omega
    · exact base_le_firstFree baseAddr alignment _ hd hsize

/-! ## The two passes -/

section

variable {upper : String → String} {m : VerilogModule} {baseAddr alignment : Int} {out : WbState}

theorem byBlockName_perm (m : VerilogModule) : m.byBlockName.Perm m.asAdded :=
  (List.perm_insertionSort _ m.instances).flatMap_right _

/-- The requested devices of an instance are its first ones when the first pass returns. -/
theorem visitInstance_requested {s s' : WbState} {inst : String × Instance} {w : Int}
    (hids : s.wbIds inst.1 = [])
    (h : visitInstance upper m alignment (.requested w) s inst = .ok s') :
    (Pass.requested w).indices inst = List.range' 0 ((Pass.requested w).indices inst).length := by
  rw [← List.range_eq_range']
  refine indicesOf_eq_range fun n hn => ?_
  have := visitInstance_indices h n hn
  rwa [hids, List.length_nil, Nat.zero_add] at this

/-- The devices in the order in which the passes met them, before sorting. -/
structure Traversal (upper : String → String) (m : VerilogModule) (baseAddr alignment : Int)
    (out : WbState) (first second : List Entry) : Prop where
  sorted : out.wbDevices = sortEntries (first ++ second)
  numbered : ∀ t e, (first ++ second)[t]? = some e →
    slotOf out.localparams (wbId upper e.instname e.index) = some ((t + m.baseWbSlaves : Nat) : Int)
    ∧ e.dev.subArbId = subArbOf m.maxDevicesPerArb t
  first_source : first.map Entry.source = m.byBlockName.flatMap (Pass.requested baseAddr).sources
  second_source : second.map Entry.source = m.asAdded.flatMap Pass.unrequested.sources
  placed : ∃ b b', PlacedFrom alignment (.requested baseAddr) baseAddr (first.map (·.dev)) b
    ∧ PlacedFrom alignment .unrequested b (second.map (·.dev)) b'

/-- What both passes have done when they return. -/
theorem passes_ok {s₁ s₂ : WbState}
    (h₁ : visitAll upper m alignment (.requested baseAddr) (m.start baseAddr)
      m.byBlockName = .ok s₁) (h₂ : visitAll upper m alignment .unrequested s₁ m.asAdded = .ok s₂) :
    Between upper m s₂ ∧ ∃ first second : List Entry, s₂.wbDevices = first ++ second
      ∧ first.map Entry.source = m.byBlockName.flatMap (Pass.requested baseAddr).sources
      ∧ second.map Entry.source = m.asAdded.flatMap Pass.unrequested.sources
      ∧ ∃ b b', PlacedFrom alignment (.requested baseAddr) baseAddr (first.map (·.dev)) b
        ∧ PlacedFrom alignment .unrequested b (second.map (·.dev)) b' := by
  have hstart : Between upper m (m.start baseAddr) :=
    ⟨⟨rfl, fun t e ht => by simp [VerilogModule.start] at ht,
      fun t e ht => by simp [VerilogModule.start] at ht⟩, rfl⟩
  have hnodup : (m.byBlockName.map (·.1)).Nodup :=
    ((byBlockName_perm m).map _).nodup_iff.mpr m.names_nodup
  obtain ⟨hb₁, hw₁, -, first, hfirst, hsrc₁, hpl₁⟩ := visitAll_ok h₁ hstart hnodup (by
    intro inst _
    refine ⟨0, rfl, fun st st' hst hv => ?_⟩
    exact visitInstance_requested hst hv)
  obtain ⟨hb₂, -, -, second, hsecond, hsrc₂, hpl₂⟩ := visitAll_ok h₂ hb₁ m.names_nodup (by
    intro inst hi
    obtain ⟨hids, hidx⟩ := hw₁ inst ((byBlockName_perm m).mem_iff.mpr hi)
    have hidx : indicesOf (Pass.requested baseAddr).selects inst.2.wbDevices
        = List.range ((Pass.requested baseAddr).indices inst).length := by
      rw [List.range_eq_range']
      exact hidx
    refine ⟨((Pass.requested baseAddr).indices inst).length, ?_, fun st st' _ _ => ?_⟩
    · rw [hids, Pass.indices, hidx, List.length_range]
      rfl
    · -- the unrequested devices are the remaining ones
      have hnot := indicesOf_not hidx
      have hsel : (fun d => !(Pass.requested baseAddr).selects d) = Pass.unrequested.selects := by
        funext d
        simp [Pass.selects]
      rw [hsel] at hnot
      rw [Pass.indices, hnot, List.length_range'])
  refine ⟨hb₂, first, second, ?_, hsrc₁, hsrc₂, s₁.baseAddr, s₂.baseAddr, hpl₁, hpl₂⟩
  rw [hsecond, hfirst]
  rfl

theorem wbCompute_traversal (h : wbCompute upper m baseAddr alignment = .ok out) :
    ∃ first second, Traversal upper m baseAddr alignment out first second := by
  obtain ⟨s₁, h₁, h⟩ := bind_returns h
  obtain ⟨s₂, h₂, h⟩ := bind_returns h
  obtain ⟨hb, first, second, hdevs, hsrc₁, hsrc₂, hplaced⟩ := passes_ok h₁ h₂
  -- the localparams added at the end change no slot number
  have hend : out.wbDevices = sortEntries s₂.wbDevices
      ∧ ∀ z w, slotOf s₂.localparams z = some w → slotOf out.localparams z = some w := by
    dsimp only at h
    split at h
    · cases h
      exact ⟨rfl, fun _ _ hz => hz⟩
    · obtain ⟨lps₁, hl₁, h⟩ := bind_returns h
      obtain ⟨lps₂, hl₂, h⟩ := bind_returns h
      obtain ⟨lps₃, hl₃, h⟩ := bind_returns h
      obtain ⟨lps₄, hl₄, h⟩ := bind_returns h
      cases h
      refine ⟨rfl, fun z w hz => ?_⟩
      have hz₁ := addLocalparam_slotOf hl₁ hz
      have hz₂ : slotOf lps₂ z = some w := by
        unfold addSubArbs at hl₂
        split at hl₂
        · exact addLocalparam_slotOf hl₂ hz₁
        · cases hl₂
          exact hz₁
      exact addLocalparam_slotOf hl₄ (addLocalparam_slotOf hl₃ hz₂)
  refine ⟨first, second, ?_, ?_, hsrc₁, hsrc₂, hplaced⟩
  · rw [← hdevs]
    exact hend.1
  · intro t e ht
    rw [← hdevs] at ht
    exact ⟨hend.2 _ _ (hb.numbered.slots t e ht), hb.numbered.subArbs t e ht⟩

/-! ## Sources -/

theorem map_sources (pass : Pass) (inst : String × Instance) :
    (pass.sources inst).map (·.2.2) = inst.2.wbDevices.filter pass.selects := by
  have hfst : inst.2.wbDevices.zipIdx.map (·.1) = inst.2.wbDevices := List.zipIdx_map_fst 0 _
  conv_rhs => rw [← hfst, List.filter_map]
  rw [Pass.sources, List.map_map]
  rfl

theorem map_flatMap_sources (pass : Pass) (insts : List (String × Instance)) :
    (insts.flatMap pass.sources).map (·.2.2)
      = insts.flatMap fun inst => inst.2.wbDevices.filter pass.selects := by
  rw [List.map_flatMap]
  simp only [map_sources]

theorem mem_sources {pass : Pass} {inst : String × Instance} {name : String} {n : Nat}
    {dev : WbDevice} : (name, n, dev) ∈ pass.sources inst ↔
      name = inst.1 ∧ inst.2.wbDevices[n]? = some dev ∧ pass.selects dev = true := by
  simp only [Pass.sources, List.mem_map, List.mem_filter, Prod.exists,
    List.mem_zipIdx_iff_getElem?, Prod.mk.injEq]
  constructor
  · rintro ⟨d, i, ⟨hd, hp⟩, rfl, rfl, rfl⟩
    exact ⟨rfl, hd, hp⟩
  · rintro ⟨rfl, hd, hp⟩
    exact ⟨dev, n, ⟨hd, hp⟩, rfl, rfl, rfl⟩

variable {first second : List Entry}

theorem Traversal.first_devices (ht : Traversal upper m baseAddr alignment out first second) :
    (first.map (·.dev)).map (·.toWbDevice) = m.requested := by
  have hsrc := congrArg (List.map fun x : String × Nat × WbDevice => x.2.2) ht.first_source
  rw [map_flatMap_sources, List.map_map] at hsrc
  rw [List.map_map]
  exact hsrc

theorem Traversal.second_devices (ht : Traversal upper m baseAddr alignment out first second) :
    (second.map (·.dev)).map (·.toWbDevice) = m.unrequested := by
  have hsrc := congrArg (List.map fun x : String × Nat × WbDevice => x.2.2) ht.second_source
  rw [map_flatMap_sources, List.map_map] at hsrc
  rw [List.map_map]
  exact hsrc

/-- Every device of the module is met, and only those. -/
theorem Traversal.mem_iff (ht : Traversal upper m baseAddr alignment out first second)
    {name : String} {n : Nat} {dev : WbDevice} :
    (∃ e ∈ first ++ second, e.source = (name, n, dev)) ↔
      ∃ inst ∈ m.asAdded, name = inst.1 ∧ inst.2.wbDevices[n]? = some dev := by
  have hmem : (∃ e ∈ first ++ second, e.source = (name, n, dev)) ↔
      (name, n, dev) ∈ (first ++ second).map Entry.source := by
    rw [List.mem_map]
  rw [hmem, List.map_append, ht.first_source, ht.second_source, List.mem_append,
    List.mem_flatMap, List.mem_flatMap]
  simp only [mem_sources, (byBlockName_perm m).mem_iff]
  constructor
  · rintro (⟨inst, hi, hname, hdev, -⟩ | ⟨inst, hi, hname, hdev, -⟩)
    · exact ⟨inst, hi, hname, hdev⟩
    · exact ⟨inst, hi, hname, hdev⟩
  · rintro ⟨inst, hi, hname, hdev⟩
    by_cases hreq : dev.reqOffset = -1
    · exact Or.inr ⟨inst, hi, hname, hdev, by simp [Pass.selects, hreq]⟩
    · exact Or.inl ⟨inst, hi, hname, hdev, by simp [Pass.selects, hreq]⟩

/-! ## Sorting -/

/-- The order of the address tables. -/
def BaseLe (a b : Entry) : Prop := a.dev.baseAddr ≤ b.dev.baseAddr

instance : Std.Total BaseLe := ⟨fun a b => le_total a.dev.baseAddr b.dev.baseAddr⟩

instance : IsTrans Entry BaseLe :=
  ⟨fun a b c => le_trans (a := a.dev.baseAddr) (b := b.dev.baseAddr) (c := c.dev.baseAddr)⟩

instance (a b : Entry) : Decidable (BaseLe a b) :=
  inferInstanceAs (Decidable (a.dev.baseAddr ≤ b.dev.baseAddr))

/-- **The devices are met in the order of their addresses exactly when `InOrder` holds.** -/
theorem Traversal.pairwise_iff (ht : Traversal upper m baseAddr alignment out first second) :
    (first ++ second).Pairwise BaseLe ↔ InOrder m baseAddr alignment := by
  obtain ⟨b, b', hpl₁, hpl₂⟩ := ht.placed
  obtain ⟨hbase, hb⟩ := placedFrom_requested hpl₁
  obtain ⟨hge, hpw, hhead⟩ := placedFrom_unrequested hpl₂
  rw [ht.first_devices] at hb
  have hbase' : ∀ e ∈ first, e.dev.baseAddr = baseAddr + e.dev.reqOffset := fun e he =>
    hbase e.dev (List.mem_map_of_mem he)
  have hfirst : first.Pairwise BaseLe ↔ m.requested.Pairwise fun a b =>
      a.reqOffset ≤ b.reqOffset := by
    rw [← ht.first_devices, List.pairwise_map, List.pairwise_map]
    refine List.Pairwise.iff_of_mem fun {e e'} he he' => ?_
    rw [BaseLe, hbase' e he, hbase' e' he']
    exact add_le_add_iff_left _
  have hsecond : second.Pairwise BaseLe := by
    rw [List.pairwise_map] at hpw
    exact hpw
  -- all the requested devices are below the others when they are below the first of those
  have hcross : (∀ a ∈ first, ∀ e ∈ second, BaseLe a e) ↔ (m.unrequested ≠ [] →
      ∀ d ∈ m.requested, roundedSize alignment d.nbytes = 0 →
        baseAddr + d.reqOffset ≤ firstFree baseAddr alignment baseAddr m.requested) := by
    rw [← hb, ← ht.second_devices]
    constructor
    · intro hall hne d hd _
      obtain ⟨e, rest, rfl⟩ : ∃ e rest, second = e :: rest := by
        refine List.exists_cons_of_ne_nil fun hnil => hne ?_
        rw [hnil]
        rfl
      rw [← ht.first_devices, List.map_map] at hd
      obtain ⟨a, ha, rfl⟩ := List.mem_map.mp hd
      have hle := hall a ha e List.mem_cons_self
      rw [BaseLe, hbase' a ha, hhead e.dev rfl] at hle
      exact hle
    · intro hzero a ha e he
      have hne : (second.map (·.dev)).map (·.toWbDevice) ≠ [] := by
        intro hnil
        rw [List.map_eq_nil_iff, List.map_eq_nil_iff] at hnil
        rw [hnil] at he
        cases he
      have hmem : a.dev.toWbDevice ∈ m.requested := by
        rw [← ht.first_devices, List.map_map]
        exact List.mem_map_of_mem ha
      refine le_trans ?_ (hge e.dev (List.mem_map_of_mem he))
      rw [hbase' a ha]
      by_cases hsize : roundedSize alignment a.dev.nbytes = 0
      · exact hzero hne _ hmem hsize
      · rw [hb]
        exact base_le_firstFree baseAddr alignment baseAddr hmem hsize
  rw [List.pairwise_append, hfirst, hcross]
  exact ⟨fun h => ⟨h.1, h.2.2⟩, fun h => ⟨h.1, hsecond, h.2⟩⟩

theorem Traversal.sorted_eq (ht : Traversal upper m baseAddr alignment out first second) :
    out.wbDevices = (first ++ second).insertionSort BaseLe := ht.sorted

/-- Two devices with the same slot number are the same. -/
theorem Traversal.eq_of_slot (ht : Traversal upper m baseAddr alignment out first second)
    {t : Nat} {e : Entry} (he : (first ++ second)[t]? = some e) {i : Nat}
    (hslot : slotOf out.localparams (wbId upper e.instname e.index) = some
      ((i + m.baseWbSlaves : Nat) : Int)) : i = t := by
  rw [(ht.numbered t e he).1, Option.some.injEq] at hslot
  omega

/-- If the slots agree, sorting has changed nothing. -/
theorem inOrder_of_slotsAgree (h : wbCompute upper m baseAddr alignment = .ok out)
    (hagree : SlotsAgree upper m out) : InOrder m baseAddr alignment := by
  obtain ⟨first, second, ht⟩ := wbCompute_traversal h
  have hsame : out.wbDevices = first ++ second := by
    apply List.ext_getElem?
    intro t
    cases he : (first ++ second)[t]? with
    | none =>
      rw [ht.sorted_eq, List.getElem?_eq_none_iff, List.length_insertionSort]
      exact List.getElem?_eq_none_iff.mp he
    | some e =>
      obtain ⟨inst, hi, hname, hdev⟩ := ht.mem_iff.mp ⟨e, List.mem_of_getElem? he, rfl⟩
      obtain ⟨i, e', he', hsrc, hslot, -⟩ := hagree inst hi _ _ hdev
      rw [← hname] at hsrc hslot
      -- the device at the position its slot number says is the device itself
      have hit := ht.eq_of_slot he hslot
      have hmem' : e' ∈ first ++ second := by
        rw [← List.mem_insertionSort BaseLe, ← ht.sorted_eq]
        exact List.mem_of_getElem? he'
      obtain ⟨t', ht'⟩ := List.mem_iff_getElem?.mp hmem'
      have hname' : e'.instname = e.instname ∧ e'.index = e.index := by
        simp only [Entry.source, Prod.mk.injEq] at hsrc
        exact ⟨hsrc.1, hsrc.2.1⟩
      rw [← hname'.1, ← hname'.2] at hslot
      have hit' := ht.eq_of_slot ht' hslot
      rw [hit] at he' hit'
      rw [← hit', he] at ht'
      rw [he', ht']
  have hpw : (first ++ second).Pairwise BaseLe := by
    rw [← hsame, ht.sorted_eq]
    exact List.pairwise_insertionSort BaseLe _
  exact ht.pairwise_iff.mp hpw

theorem slotsAgree_of_inOrder (h : wbCompute upper m baseAddr alignment = .ok out)
    (horder : InOrder m baseAddr alignment) : SlotsAgree upper m out := by
  obtain ⟨first, second, ht⟩ := wbCompute_traversal h
  have hsame : out.wbDevices = first ++ second := by
    rw [ht.sorted_eq]
    exact (ht.pairwise_iff.mpr horder).insertionSort_eq
  intro inst hi n dev hdev
  obtain ⟨e, he, hsrc⟩ := ht.mem_iff.mpr ⟨inst, hi, rfl, hdev⟩
  obtain ⟨t, ht'⟩ := List.mem_iff_getElem?.mp he
  obtain ⟨hslot, harb⟩ := ht.numbered t e ht'
  have hname : e.instname = inst.1 ∧ e.index = n := by
    simp only [Entry.source, Prod.mk.injEq] at hsrc
    exact ⟨hsrc.1, hsrc.2.1⟩
  rw [hname.1, hname.2] at hslot
  refine ⟨t, e, by rw [hsame]; exact ht', hsrc, hslot, ?_⟩
  intro k hk
  rw [harb, hk]
  rfl

/--
**Slot numbers and address tables agree exactly for devices in order.**  In a call that returns,
every device's slot number and sub-arbiter are those of its position in the address tables if and
only if the requested offsets do not decrease in the order of the first pass (and no empty
requested device lies above the address from which the others are placed).
-/
theorem wbCompute_slots_iff (h : wbCompute upper m baseAddr alignment = .ok out) :
    SlotsAgree upper m out ↔ InOrder m baseAddr alignment :=
  ⟨inOrder_of_slotsAgree h, slotsAgree_of_inOrder h⟩

end

/-! ## Two 40 GbE cores -/

/-- The core on a port, which requests the offset `0x16000 * port` (`forty_gbe.py`). -/
def gbeInstance (regname : String) (port : Int) : Instance where
  wbDevices :=
    [{ regname, nbytes := 0x16000, hdlSuffix := "", hdlCandrSuffix := "",
       reqOffset := 0x16000 * port }]
  ports := ∅

/-- A design with two cores in blocks `gbe_a` and `gbe_b`. -/
def gbeModule (portA portB : Int) : VerilogModule where
  instances :=
    [("gbe_a", [("gbe_a_inst", gbeInstance "gbe_a" portA)]),
     ("gbe_b", [("gbe_b_inst", gbeInstance "gbe_b" portB)])]
  localparams := ∅
  topfile := false
  baseWbSlaves := 0
  maxDevicesPerArb := none
  names_nodup := by
    simp only [List.flatMap_cons, List.flatMap_nil, List.map_cons, List.map_nil,
      List.append_nil, List.cons_append, List.nil_append]
    decide

theorem gbeModule_returns (portA portB : Int)
    (h : (wbCompute String.toUpper (gbeModule portA portB) 0x10000 4).toBool = true) :
    ∃ out, wbCompute String.toUpper (gbeModule portA portB) 0x10000 4 = .ok out := by
  cases hw : wbCompute String.toUpper (gbeModule portA portB) 0x10000 4 with
  | error e => rw [hw] at h; cases h
  | ok out => exact ⟨out, rfl⟩

/-- With the ports in the order of the block names the slots agree. -/
theorem gbeModule_slots_agree :
    ∃ out, wbCompute String.toUpper (gbeModule 0 1) 0x10000 4 = .ok out
      ∧ SlotsAgree String.toUpper (gbeModule 0 1) out := by
  obtain ⟨out, hout⟩ := gbeModule_returns 0 1 (by decide +kernel)
  refine ⟨out, hout, (wbCompute_slots_iff hout).mpr ⟨?_, ?_⟩⟩
  · decide
  · intro hne
    exact absurd (by decide) hne

/--
**With the ports the other way round they do not**: `gbe_a` gets slot 0 but its addresses are in
entry 1 of the address tables.
-/
theorem gbeModule_slots_disagree :
    ∃ out, wbCompute String.toUpper (gbeModule 1 0) 0x10000 4 = .ok out
      ∧ ¬ SlotsAgree String.toUpper (gbeModule 1 0) out := by
  obtain ⟨out, hout⟩ := gbeModule_returns 1 0 (by decide +kernel)
  refine ⟨out, hout, fun hagree => ?_⟩
  exact absurd (inOrder_of_slotsAgree hout hagree).1 (by decide)

end MlibDevel.Verilog
