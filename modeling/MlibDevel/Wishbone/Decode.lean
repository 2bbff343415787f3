import MlibDevel.Wishbone.MasterArbiter
import Mathlib.Data.Int.ConditionallyCompleteOrder
import Mathlib.Data.Set.Lattice
import Mathlib.Order.CompletePartialOrder
import Mathlib.Order.Interval.Set.Basic

/-!
# The hierarchical arbiter decodes like the flat one

For devices sorted by base address whose ranges do not meet, `masterArbiter k` and `flatArbiter`
drive the same cycle lines for every address, and present the selected device the same address.

The chunks are handled one at a time.  The primary arbiter selects a chunk when the address is
between the chunk's first base and its last end, so an address inside one of its devices always
selects it; and since the chunks follow one another on the bus, no other chunk is selected, and the
address the sub-arbiters see is relative to that chunk's first device.

## Main results

- `masterArbiter_decodes_like_flat`
-/

namespace MlibDevel.Wishbone

open Lib Verilog

/-! ## Address maps -/

/-- The addresses of a device. -/
def range (d : PlacedDevice) : Set Int := Set.Icc d.baseAddr d.highAddr

theorem range_disjoint_of_lt {a b : PlacedDevice} (h : a.highAddr < b.baseAddr) :
    Disjoint (range a) (range b) := by
  refine Set.disjoint_left.mpr fun x hxa hxb => ?_
  have hle : x ≤ a.highAddr := hxa.2
  have hge : b.baseAddr ≤ x := hxb.1
  omega

/-- Devices with 32-bit address ranges, sorted by base address, no two of which meet. -/
structure AddrMap (ds : List PlacedDevice) : Prop where
  nonneg : ∀ d ∈ ds, 0 ≤ d.baseAddr
  base_le_high : ∀ d ∈ ds, d.baseAddr ≤ d.highAddr
  high_lt : ∀ d ∈ ds, d.highAddr < 2 ^ 32
  sorted : ds.Pairwise fun a b => a.baseAddr ≤ b.baseAddr
  disjoint : ds.Pairwise fun a b => Disjoint (range a) (range b)

/-- Whether an address belongs to a device. -/
def inRange (adr : BitVec 32) (d : PlacedDevice) : Bool :=
  d.baseAddr ≤ adr.toNat ∧ (adr.toNat : Int) ≤ d.highAddr

namespace AddrMap

variable {ds c : List PlacedDevice}

/-- **Each device ends before the next one begins.** -/
theorem high_lt_base (h : AddrMap ds) : ds.Pairwise fun a b => a.highAddr < b.baseAddr := by
  refine (h.sorted.and h.disjoint).imp_of_mem fun {a b} ha hb hab => ?_
  by_contra hle
  -- otherwise the second device's base is in both ranges
  have hba : b.baseAddr ∈ range a := ⟨hab.1, not_lt.mp hle⟩
  have hbb : b.baseAddr ∈ range b := ⟨le_rfl, h.base_le_high b hb⟩
  exact Set.disjoint_left.mp hab.2 hba hbb

theorem sublist (h : AddrMap ds) (hc : c.Sublist ds) : AddrMap c where
  nonneg d hd := h.nonneg d (hc.subset hd)
  base_le_high d hd := h.base_le_high d (hc.subset hd)
  high_lt d hd := h.high_lt d (hc.subset hd)
  sorted := h.sorted.sublist hc
  disjoint := h.disjoint.sublist hc

theorem base_lt (h : AddrMap ds) {d : PlacedDevice} (hd : d ∈ ds) : d.baseAddr < 2 ^ 32 :=
  lt_of_le_of_lt (h.base_le_high d hd) (h.high_lt d hd)

theorem high_nonneg (h : AddrMap ds) {d : PlacedDevice} (hd : d ∈ ds) : 0 ≤ d.highAddr :=
  le_trans (h.nonneg d hd) (h.base_le_high d hd)

/-- The first device has the lowest base. -/
theorem head_base_le {d₀ : PlacedDevice} (h : AddrMap (d₀ :: ds)) :
    ∀ d ∈ d₀ :: ds, d₀.baseAddr ≤ d.baseAddr := by
  intro d hd
  rcases List.mem_cons.mp hd with rfl | hd
  · exact le_rfl
  · exact List.rel_of_pairwise_cons h.sorted hd

/-- The last device ends last. -/
theorem high_le_last {d₁ : PlacedDevice} (h : AddrMap (ds ++ [d₁])) :
    ∀ d ∈ ds ++ [d₁], d.highAddr ≤ d₁.highAddr := by
  intro d hd
  rcases List.mem_append.mp hd with hd | hd
  · have hlt := (List.pairwise_append.mp h.high_lt_base).2.2 d hd d₁ List.mem_cons_self
    exact le_of_lt (lt_of_lt_of_le hlt (h.base_le_high d₁ (by simp)))
  · rw [List.mem_singleton.mp hd]

/-- An address belongs to one device at most. -/
theorem inRange_unique (h : AddrMap ds) {adr : BitVec 32} {i j : Nat} {a b : PlacedDevice}
    (ha : ds[i]? = some a) (hb : ds[j]? = some b) (hia : inRange adr a = true)
    (hjb : inRange adr b = true) : i = j := by
  obtain ⟨hi, rfl⟩ := List.getElem?_eq_some_iff.mp ha
  obtain ⟨hj, rfl⟩ := List.getElem?_eq_some_iff.mp hb
  simp only [inRange, decide_eq_true_eq] at hia hjb
  have hpw := List.pairwise_iff_getElem.mp h.high_lt_base
  rcases lt_trichotomy i j with hlt | heq | hgt
  · have := hpw i j hi hj hlt
    omega
  · exact heq
  · have := hpw j i hj hi hgt
    omega

end AddrMap

/-! ## One arbiter -/

section

variable {α : Type} {a : WbsArbiter} {xs : List α} {f g : α → BitVec 32}

/-- A slave's bounds stand at its own index although they are written from the last to the first. -/
theorem slice_concat_map {i : Nat} {x : α} (hx : xs[i]? = some x) :
    slice 32 i (concat 32 (xs.reverse.map f)) = f x := by
  rw [List.map_reverse]
  exact slice_concat_reverse (by rw [List.getElem?_map, hx]; rfl)

theorem wbsSelBit_eq (ha : a.slaveAddr = concat 32 (xs.reverse.map f))
    (hh : a.slaveHigh = concat 32 (xs.reverse.map g)) (adr : BitVec 32) {i : Nat} {x : α}
    (hx : xs[i]? = some x) : a.wbsSelBit adr i = (f x ≤ adr && adr ≤ g x) := by
  rw [WbsArbiter.wbsSelBit, ha, hh, slice_concat_map hx, slice_concat_map hx]

theorem wbsSel_eq (hn : a.nSlaves = xs.length) (ha : a.slaveAddr = concat 32 (xs.reverse.map f))
    (hh : a.slaveHigh = concat 32 (xs.reverse.map g)) (adr : BitVec 32) :
    a.wbsSel adr = xs.map fun x => (f x ≤ adr && adr ≤ g x) := by
  apply List.ext_getElem?
  intro i
  rw [WbsArbiter.wbsSel, hn, List.getElem?_map, List.getElem?_map]
  cases hx : xs[i]? with
  | none =>
    have hlen := List.getElem?_eq_none_iff.mp hx
    rw [List.getElem?_eq_none (by simpa using hlen)]
    rfl
  | some x =>
    have hi := (List.getElem?_eq_some_iff.mp hx).1
    rw [List.getElem?_range hi, Option.map_some, Option.map_some, wbsSelBit_eq ha hh adr hx]

end

/-! ## The flat arbiter -/

section

variable {ds c : List PlacedDevice} {adr : BitVec 32}

/-- The bounds of a device compare with an address as the integers they stand for. -/
theorem AddrMap.inRange_eq (h : AddrMap ds) {d : PlacedDevice} (hd : d ∈ ds) (adr : BitVec 32) :
    (lit32 d.baseAddr ≤ adr && adr ≤ lit32 d.highAddr : Bool) = inRange adr d := by
  rw [inRange, Bool.decide_and]
  congr 1
  · exact decide_eq_decide.mpr (lit32_le_iff (h.nonneg d hd) (h.base_lt hd) adr)
  · exact decide_eq_decide.mpr (le_lit32_iff (h.high_nonneg hd) (h.high_lt d hd) adr)

theorem flatArbiter_wbsSel (h : AddrMap ds) (adr : BitVec 32) :
    (flatArbiter ds).wbsSel adr = ds.map (inRange adr) := by
  rw [wbsSel_eq rfl rfl rfl]
  exact List.map_congr_left fun d hd => h.inRange_eq hd adr

theorem flatArbiter_wbsSelBit (h : AddrMap ds) {i : Nat} {d : PlacedDevice}
    (hd : ds[i]? = some d) (adr : BitVec 32) :
    (flatArbiter ds).wbsSelBit adr i = inRange adr d := by
  rw [wbsSelBit_eq rfl rfl adr hd, h.inRange_eq (List.mem_of_getElem? hd)]

/-- The flat arbiter presents the selected device its own relative address. -/
theorem flatArbiter_wbsAdrO (h : AddrMap ds) {i : Nat} {d : PlacedDevice} (hd : ds[i]? = some d)
    (hin : inRange adr d = true) : (flatArbiter ds).wbsAdrO adr = adr - lit32 d.baseAddr := by
  have hi : i < ds.length := (List.getElem?_eq_some_iff.mp hd).1
  rw [WbsArbiter.wbsAdrO_eq hi (by rw [flatArbiter_wbsSelBit h hd]; exact hin)]
  · rw [flatArbiter, slice_concat_map hd]
  · intro j hj hsel
    obtain ⟨d', hd'⟩ : ∃ d', ds[j]? = some d' := ⟨ds[j], List.getElem?_eq_getElem hj⟩
    rw [flatArbiter_wbsSelBit h hd'] at hsel
    exact h.inRange_unique hd' hd hsel hin

/-! ## A sub-arbiter -/

/-- The lowest base of a chunk is that of its first device. -/
theorem arbiterBaseAddress_cons {d₀ : PlacedDevice} (h : AddrMap (d₀ :: c)) :
    arbiterBaseAddress (d₀ :: c) = d₀.baseAddr := by
  have hkeep : ∀ (l : List PlacedDevice), (∀ d ∈ l, d₀.baseAddr ≤ d.baseAddr) →
      l.foldl (fun b dev => if dev.baseAddr < b then dev.baseAddr else b) d₀.baseAddr
        = d₀.baseAddr := by
    intro l
    induction l with
    | nil => intro _; rfl
    | cons d l ih =>
      intro hl
      rw [List.foldl_cons, if_neg (not_lt.mpr (hl d List.mem_cons_self))]
      exact ih fun d' hd' => hl d' (List.mem_cons_of_mem _ hd')
  have hfirst : (if d₀.baseAddr < 0xFFFFFFFF then d₀.baseAddr else 0xFFFFFFFF) = d₀.baseAddr := by
    have := h.base_lt List.mem_cons_self
    split <;> omega
  rw [arbiterBaseAddress, List.foldl_cons, hfirst]
  exact hkeep c fun d hd => h.head_base_le d (List.mem_cons_of_mem _ hd)

/-- Subtracting a common base keeps the order of what is not below it. -/
theorem sub_le_sub_iff_of_le {b x y : BitVec 32} (hx : b ≤ x) (hy : b ≤ y) :
    x - b ≤ y - b ↔ x ≤ y := by
  rw [BitVec.le_def, BitVec.le_def, BitVec.toNat_sub_of_le hx, BitVec.toNat_sub_of_le hy]
  rw [BitVec.le_def] at hx hy
  omega

theorem lit32_le_lit32 {m n : Int} (h0 : 0 ≤ m) (hle : m ≤ n) (h1 : n < 2 ^ 32) :
    lit32 m ≤ lit32 n := by
  rw [lit32_le_iff h0 (lt_of_le_of_lt hle h1), lit32, BitVec.toNat_ofInt]
  omega

variable {d₀ : PlacedDevice} {n : Nat}

/-- Relative to the chunk's base, a sub-arbiter compares what the flat arbiter does. -/
theorem relative_inRange (h : AddrMap (d₀ :: c)) (hadr : d₀.baseAddr ≤ adr.toNat)
    {d : PlacedDevice} (hd : d ∈ d₀ :: c) :
    (lit32 d.baseAddr - lit32 d₀.baseAddr ≤ adr - lit32 d₀.baseAddr
      && adr - lit32 d₀.baseAddr ≤ lit32 d.highAddr - lit32 d₀.baseAddr : Bool)
      = inRange adr d := by
  have h₀ : d₀ ∈ d₀ :: c := List.mem_cons_self
  have hle := h.head_base_le d hd
  have hbase : lit32 d₀.baseAddr ≤ lit32 d.baseAddr :=
    lit32_le_lit32 (h.nonneg d₀ h₀) hle (h.base_lt hd)
  have hhigh : lit32 d₀.baseAddr ≤ lit32 d.highAddr :=
    lit32_le_lit32 (h.nonneg d₀ h₀) (hle.trans (h.base_le_high d hd)) (h.high_lt d hd)
  have hbadr : lit32 d₀.baseAddr ≤ adr :=
    (lit32_le_iff (h.nonneg d₀ h₀) (h.base_lt h₀) adr).mpr hadr
  rw [← h.inRange_eq hd adr]
  congr 1
  · exact decide_eq_decide.mpr (sub_le_sub_iff_of_le hbase hbadr)
  · exact decide_eq_decide.mpr (sub_le_sub_iff_of_le hbadr hhigh)

theorem subArbiter_wbsSelBit (h : AddrMap (d₀ :: c)) (hadr : d₀.baseAddr ≤ adr.toNat) {i : Nat}
    {d : PlacedDevice} (hd : (d₀ :: c)[i]? = some d) :
    (subArbiter n (d₀ :: c)).wbsSelBit (adr - lit32 d₀.baseAddr) i = inRange adr d := by
  rw [wbsSelBit_eq rfl rfl _ hd, arbiterBaseAddress_cons h]
  exact relative_inRange h hadr (List.mem_of_getElem? hd)

theorem subArbiter_wbsSel (h : AddrMap (d₀ :: c)) (hadr : d₀.baseAddr ≤ adr.toNat)
    (hn : n = (d₀ :: c).length) :
    (subArbiter n (d₀ :: c)).wbsSel (adr - lit32 d₀.baseAddr) = (d₀ :: c).map (inRange adr) := by
  rw [wbsSel_eq (a := subArbiter n (d₀ :: c)) hn rfl rfl, arbiterBaseAddress_cons h]
  exact List.map_congr_left fun d hd => relative_inRange h hadr hd

/-- The two subtractions leave the address relative to the device. -/
theorem subArbiter_wbsAdrO (h : AddrMap (d₀ :: c)) (hn : n = (d₀ :: c).length) {i : Nat}
    {d : PlacedDevice} (hd : (d₀ :: c)[i]? = some d) (hin : inRange adr d = true) :
    (subArbiter n (d₀ :: c)).wbsAdrO (adr - lit32 d₀.baseAddr) = adr - lit32 d.baseAddr := by
  have hmem : d ∈ d₀ :: c := List.mem_of_getElem? hd
  have hadr : d₀.baseAddr ≤ adr.toNat := by
    have := h.head_base_le d hmem
    simp only [inRange, decide_eq_true_eq] at hin
    omega
  have hi : i < n := by
    rw [hn]
    exact (List.getElem?_eq_some_iff.mp hd).1
  rw [WbsArbiter.wbsAdrO_eq (a := subArbiter n (d₀ :: c)) hi
    (by rw [subArbiter_wbsSelBit h hadr hd]; exact hin)]
  · rw [subArbiter, slice_concat_map hd, arbiterBaseAddress_cons h]
    have hcancel : ∀ x y z : BitVec 32, x - y - (z - y) = x - z := by
      intro x y z
      bv_omega
    exact hcancel _ _ _
  · intro j hj hsel
    have hj' : j < (d₀ :: c).length := by rw [← hn]; exact hj
    have hd' : (d₀ :: c)[j]? = some (d₀ :: c)[j] := List.getElem?_eq_getElem hj'
    rw [subArbiter_wbsSelBit h hadr hd'] at hsel
    exact h.inRange_unique hd' hd hsel hin

/-! ## The chunks -/

/-- A chunk of an address map. -/
theorem AddrMap.chunk (h : AddrMap ds) {k : Nat} (hc : c ∈ chunks k ds) : AddrMap c := by
  obtain ⟨i, -, rfl⟩ := List.mem_map.mp hc
  exact h.sublist ((List.take_sublist _ _).trans (List.drop_sublist _ _))

/-- The chunks follow one another on the bus. -/
theorem AddrMap.chunks_apart (h : AddrMap ds) {k : Nat} (hk : 0 < k) :
    (chunks k ds).Pairwise fun c c' => ∀ a ∈ c, ∀ b ∈ c', a.highAddr < b.baseAddr := by
  have hpw := h.high_lt_base
  rw [← flatten_chunks hk ds, List.pairwise_flatten] at hpw
  exact hpw.2

/-- The primary arbiter's comparison for a chunk with first device `a` and last device `b`. -/
theorem primaryArbiter_wbsSelBit (h : AddrMap ds) {k i : Nat} {a b : PlacedDevice}
    (hc : (chunks k ds)[i]? = some c) (ha : c.head? = some a) (hb : c.getLast? = some b)
    (adr : BitVec 32) :
    (primaryArbiter (chunks k ds)).wbsSelBit adr i = true
      ↔ a.baseAddr ≤ adr.toNat ∧ (adr.toNat : Int) ≤ b.highAddr := by
  have hm := h.chunk (List.mem_of_getElem? hc)
  have hamem : a ∈ c := List.mem_of_head? ha
  have hbmem : b ∈ c := List.mem_of_getLast? hb
  rw [wbsSelBit_eq rfl rfl adr hc, ha, hb, Bool.and_eq_true, decide_eq_true_eq,
    decide_eq_true_eq]
  exact and_congr (lit32_le_iff (hm.nonneg a hamem) (hm.base_lt hamem) adr)
    (le_lit32_iff (hm.high_nonneg hbmem) (hm.high_lt b hbmem) adr)

/-- **An address of a device selects the device's chunk.** -/
theorem primaryArbiter_selects (h : AddrMap ds) {k i : Nat} (hc : (chunks k ds)[i]? = some c)
    {d : PlacedDevice} (hd : d ∈ c) (hin : inRange adr d = true) :
    (primaryArbiter (chunks k ds)).wbsSelBit adr i = true := by
  have hm := h.chunk (List.mem_of_getElem? hc)
  obtain ⟨a, ha⟩ : ∃ a, c.head? = some a := ⟨_, List.head?_eq_some_head (List.ne_nil_of_mem hd)⟩
  obtain ⟨b, hb⟩ : ∃ b, c.getLast? = some b :=
    ⟨_, List.getLast?_eq_some_getLast (List.ne_nil_of_mem hd)⟩
  rw [primaryArbiter_wbsSelBit h hc ha hb]
  simp only [inRange, decide_eq_true_eq] at hin
  obtain ⟨c', rfl⟩ := List.head?_eq_some_iff.mp ha
  have hlow := hm.head_base_le d hd
  obtain ⟨c'', hc''⟩ := List.getLast?_eq_some_iff.mp hb
  rw [hc''] at hm hd
  have hup := hm.high_le_last d hd
  omega

/-- The primary arbiter selects one chunk at most. -/
theorem primaryArbiter_unique (h : AddrMap ds) {k : Nat} (hk : 0 < k) {i j : Nat}
    (hi : i < (chunks k ds).length) (hj : j < (chunks k ds).length)
    (hsi : (primaryArbiter (chunks k ds)).wbsSelBit adr i = true)
    (hsj : (primaryArbiter (chunks k ds)).wbsSelBit adr j = true) : i = j := by
  have hci : (chunks k ds)[i]? = some (chunks k ds)[i] := List.getElem?_eq_getElem hi
  have hcj : (chunks k ds)[j]? = some (chunks k ds)[j] := List.getElem?_eq_getElem hj
  have hnei := chunk_ne_nil hk (List.getElem_mem hi)
  have hnej := chunk_ne_nil hk (List.getElem_mem hj)
  rw [primaryArbiter_wbsSelBit h hci (List.head?_eq_some_head hnei)
    (List.getLast?_eq_some_getLast hnei)] at hsi
  rw [primaryArbiter_wbsSelBit h hcj (List.head?_eq_some_head hnej)
    (List.getLast?_eq_some_getLast hnej)] at hsj
  have hpw := List.pairwise_iff_getElem.mp (h.chunks_apart hk)
  rcases lt_trichotomy i j with hlt | heq | hgt
  · have := hpw i j hi hj hlt _ (List.getLast_mem hnei) _ (List.head_mem hnej)
    omega
  · exact heq
  · have := hpw j i hj hi hgt _ (List.getLast_mem hnej) _ (List.head_mem hnei)
    omega

/-- The sub-arbiters see the address relative to the selected chunk's first device. -/
theorem primaryArbiter_wbsAdrO (h : AddrMap ds) {k : Nat} (hk : 0 < k) {i : Nat}
    (hc : (chunks k ds)[i]? = some (d₀ :: c))
    (hsel : (primaryArbiter (chunks k ds)).wbsSelBit adr i = true) :
    (primaryArbiter (chunks k ds)).wbsAdrO adr = adr - lit32 d₀.baseAddr := by
  have hi := (List.getElem?_eq_some_iff.mp hc).1
  rw [WbsArbiter.wbsAdrO_eq (a := primaryArbiter (chunks k ds)) hi hsel
    fun j hj hsj => primaryArbiter_unique h hk hj hi hsj hsel]
  rw [primaryArbiter, slice_concat_map hc]
  rfl

/-- `N_SLAVES_ARB<i>` is the number of devices of chunk `i`. -/
theorem nSlavesArb_eq {k : Nat} (hk : 0 < k) {i : Nat} (hc : (chunks k ds)[i]? = some c) :
    nSlavesArb (chunks k ds) k i = c.length := by
  rw [length_of_getElem?_chunks hk hc, nSlavesArb, ← List.length_flatten, flatten_chunks hk]

/-- **A sub-arbiter's cycle lines are the flat arbiter's for its devices.** -/
theorem cycArb_eq (h : AddrMap ds) {k : Nat} (hk : 0 < k) (adr : BitVec 32) {i : Nat}
    (hc : (chunks k ds)[i]? = some c) :
    (masterArbiter k ds).cycArb adr i (subArbiter (nSlavesArb (chunks k ds) k i) c)
      = c.map (inRange adr) := by
  have hm := h.chunk (List.mem_of_getElem? hc)
  obtain ⟨d₀, c', rfl⟩ := List.exists_cons_of_ne_nil (chunk_ne_nil hk (List.mem_of_getElem? hc))
  have hlen := nSlavesArb_eq hk hc
  show WbsArbiter.wbsCycO _ ((primaryArbiter (chunks k ds)).wbsAdrO adr)
    ((primaryArbiter (chunks k ds)).wbsSelBit adr i) = _
  cases hsel : (primaryArbiter (chunks k ds)).wbsSelBit adr i with
  | true =>
    have hadr : d₀.baseAddr ≤ adr.toNat :=
      ((primaryArbiter_wbsSelBit h hc rfl (List.getLast?_eq_some_getLast (by simp)) adr).mp hsel).1
    rw [primaryArbiter_wbsAdrO h hk hc hsel, WbsArbiter.wbsCycO, if_pos rfl]
    exact subArbiter_wbsSel hm hadr hlen
  | false =>
    -- the address is outside the chunk, so it is in none of its devices
    rw [WbsArbiter.wbsCycO, if_neg (by simp)]
    have hnone : ∀ d ∈ d₀ :: c', inRange adr d = false := by
      intro d hd
      by_contra hne
      rw [Bool.not_eq_false] at hne
      rw [primaryArbiter_selects h hc hd hne] at hsel
      exact absurd hsel (by simp)
    rw [List.map_congr_left hnone, List.map_const', subArbiter, hlen]

/-! ## The whole hierarchy -/

theorem masterArbiter_wbsCycO (h : AddrMap ds) {k : Nat} (hk : 0 < k) (adr : BitVec 32) :
    (masterArbiter k ds).wbsCycO adr = ds.map (inRange adr) := by
  have hpieces : (masterArbiter k ds).subs.mapIdx ((masterArbiter k ds).cycArb adr)
      = (chunks k ds).map (List.map (inRange adr)) := by
    apply List.ext_getElem?
    intro i
    rw [List.getElem?_mapIdx, List.getElem?_map]
    show Option.map _ ((chunks k ds).mapIdx _)[i]? = _
    rw [List.getElem?_mapIdx]
    cases hc : (chunks k ds)[i]? with
    | none => rfl
    | some c => simp only [Option.map_some, cycArb_eq h hk adr hc]
  rw [MasterArbiter.wbsCycO, hpieces, concatBits, List.reverse_reverse, ← List.map_flatten,
    flatten_chunks hk]

/-- The address word of a device's chunk. -/
theorem masterArbiter_wbsAdrO (h : AddrMap ds) {k : Nat} (hk : 0 < k) {j : Nat}
    {d : PlacedDevice} (hd : ds[j]? = some d) (hin : inRange adr d = true) :
    slice 32 (j / k) ((masterArbiter k ds).wbsAdrO adr) = adr - lit32 d.baseAddr := by
  have hj := (List.getElem?_eq_some_iff.mp hd).1
  have hchunk : j / k * k < ds.length := lt_of_le_of_lt (Nat.div_mul_le_self j k) hj
  have hc := getElem?_chunks hk ds hchunk
  have hdc : ((ds.drop (j / k * k)).take k)[j % k]? = some d := by
    rw [List.getElem?_take_of_lt (Nat.mod_lt j hk), List.getElem?_drop, Nat.div_add_mod' j k, hd]
  have hm := h.chunk (List.mem_of_getElem? hc)
  have hsel := primaryArbiter_selects h hc (List.mem_of_getElem? hdc) hin
  have hlen := nSlavesArb_eq hk hc
  obtain ⟨d₀, c', heq⟩ := List.exists_cons_of_ne_nil (List.ne_nil_of_mem (List.mem_of_getElem? hdc))
  rw [heq] at hc hdc hm hlen
  rw [MasterArbiter.wbsAdrO, slice_concat_reverse
    (x := (subArbiter (nSlavesArb (chunks k ds) k (j / k)) (d₀ :: c')).wbsAdrO
      ((primaryArbiter (chunks k ds)).wbsAdrO adr))]
  · rw [primaryArbiter_wbsAdrO h hk hc hsel]
    exact subArbiter_wbsAdrO hm hlen hdc hin
  · show (List.map _ ((chunks k ds).mapIdx _))[j / k]? = _
    rw [List.getElem?_map, List.getElem?_mapIdx, hc]
    rfl

/--
**Two levels decode like one.**  For every address the hierarchical arbiter drives the same cycle
lines as the flat one, presents a selected slave (through the address word of its sub-arbiter) the
address the flat one does, and selects no slave exactly when the flat one selects none.
-/
theorem masterArbiter_decodes_like_flat (h : AddrMap ds) {k : Nat} (hk : 0 < k)
    (adr : BitVec 32) :
    (masterArbiter k ds).wbsCycO adr = (flatArbiter ds).wbsCycO adr true
    ∧ (∀ j, ((flatArbiter ds).wbsCycO adr true)[j]? = some true →
        slice 32 (j / k) ((masterArbiter k ds).wbsAdrO adr) = (flatArbiter ds).wbsAdrO adr)
    ∧ ((∀ b ∈ (masterArbiter k ds).wbsCycO adr, b = false)
        ↔ ∀ b ∈ (flatArbiter ds).wbsCycO adr true, b = false) := by
  have hflat : (flatArbiter ds).wbsCycO adr true = ds.map (inRange adr) := by
    rw [WbsArbiter.wbsCycO, if_pos rfl, flatArbiter_wbsSel h]
  rw [hflat, masterArbiter_wbsCycO h hk]
  refine ⟨rfl, ?_, Iff.rfl⟩
  intro j hj
  rw [List.getElem?_map, Option.map_eq_some_iff] at hj
  obtain ⟨d, hd, hin⟩ := hj
  rw [masterArbiter_wbsAdrO h hk hd hin, flatArbiter_wbsAdrO h hd hin]

end

/-! ## Three devices behind two sub-arbiters -/

/-- Two registers and a memory with a gap before it. -/
def gapDevices : List PlacedDevice :=
  [{ regname := "sys", nbytes := 4, hdlSuffix := "", hdlCandrSuffix := "", reqOffset := -1,
     baseAddr := 0x10000, highAddr := 0x10003, subArbId := 0 },
   { regname := "ctl", nbytes := 4, hdlSuffix := "", hdlCandrSuffix := "", reqOffset := -1,
     baseAddr := 0x10004, highAddr := 0x10007, subArbId := 0 },
   { regname := "mem", nbytes := 256, hdlSuffix := "", hdlCandrSuffix := "", reqOffset := 0x8000,
     baseAddr := 0x18000, highAddr := 0x180ff, subArbId := 1 }]

theorem gapDevices_addrMap : AddrMap gapDevices where
  nonneg := by decide
  base_le_high := by decide
  high_lt := by decide
  sorted := by decide
  disjoint := List.Pairwise.imp range_disjoint_of_lt
    (by decide : gapDevices.Pairwise fun a b => a.highAddr < b.baseAddr)

/-- An address of the memory, which is alone behind the second sub-arbiter. -/
theorem gapDevices_decodes_mem :
    (masterArbiter 2 gapDevices).wbsCycO 0x18010 = (flatArbiter gapDevices).wbsCycO 0x18010 true
    ∧ (∀ j, ((flatArbiter gapDevices).wbsCycO 0x18010 true)[j]? = some true →
        slice 32 (j / 2) ((masterArbiter 2 gapDevices).wbsAdrO 0x18010)
          = (flatArbiter gapDevices).wbsAdrO 0x18010)
    ∧ ((∀ b ∈ (masterArbiter 2 gapDevices).wbsCycO 0x18010, b = false)
        ↔ ∀ b ∈ (flatArbiter gapDevices).wbsCycO 0x18010 true, b = false) :=
  masterArbiter_decodes_like_flat gapDevices_addrMap (by decide) 0x18010

example : (masterArbiter 2 gapDevices).wbsCycO 0x18010 = [false, false, true] := by decide

end MlibDevel.Wishbone
