import MlibDevel.Verilog.WbCompute

/-!
# How `wb_compute` numbers the devices

The devices get their numbers in the order in which the two passes meet them.  The state between
two visits is described by `Between`: the device at position `t` of the list has slot number `t`
and the sub-arbiter of `t`.

The names under which the slot numbers are stored need an argument of their own.  An instance's
`wb_ids` holds the names of its requested devices first, and indexing it with a device's own number
raises an exception unless those are the instance's first devices; so in a call that returns,
`wb_ids[n]` is the name of device `n`.

## Main results

- `visitAll_ok` : what a pass that returns has done
-/

namespace MlibDevel.Verilog

open Lib

/-! ## Localparams -/

/-- The number a localparam holds. -/
def slotOf (lps : Objects) (name : String) : Option Int :=
  (lps.lookup name).bind fun a => (a.lookup "value").bind PyVal.toInt?

theorem updateParameter_keeps {a a' : Attrs} {name : String} {value : PyVal}
    (h : updateParameter a name value .none = .ok a') {z : String} {v : PyVal}
    (hz : a.lookup z = some v) (hv : v ≠ .none) : a'.lookup z = some v := by
  obtain ⟨a₁, h₁, h⟩ := bind_returns h
  obtain ⟨a₂, h₂, h⟩ := bind_returns h
  obtain ⟨a₃, h₃, h₄⟩ := bind_returns h
  cases h₃
  exact setattr_lookup h₄ (setattr_lookup h₂ (setattr_lookup h₁ hz hv) hv) hv

theorem PyVal.toInt?_of_pyEq {v : PyVal} {n : Int} (h : v = .int n ∨ v.pyEq (.int n) = true) :
    v.toInt? = some n := by
  rcases h with rfl | h
  · rfl
  · unfold PyVal.pyEq at h
    cases hv : v.toInt? with
    | none =>
      rw [hv] at h
      simp only [decide_eq_true_eq] at h
      subst h
      cases hv
    | some m =>
      rw [hv] at h
      simp only [PyVal.toInt?, decide_eq_true_eq] at h
      rw [h]

theorem updateParameter_value {a a' : Attrs} {name : String} {n : Int}
    (h : updateParameter a name (.int n) .none = .ok a') :
    (a'.lookup "value").bind PyVal.toInt? = some n := by
  obtain ⟨a₁, h₁, h⟩ := bind_returns h
  obtain ⟨a₂, h₂, h⟩ := bind_returns h
  obtain ⟨a₃, h₃, h₄⟩ := bind_returns h
  cases h₃
  obtain ⟨v, hv, heq⟩ := setattr_lookup_self h₂
  have hint := PyVal.toInt?_of_pyEq heq
  have hne : v ≠ .none := fun he => by rw [he] at hint; cases hint
  rw [setattr_lookup h₄ hv hne]
  exact hint

/-- After a localparam is added it holds the number. -/
theorem addLocalparam_slotOf_self {lps lps' : Objects} {name : String} {n : Int}
    (h : addLocalparam lps name (.int n) = .ok lps') : slotOf lps' name = some n := by
  obtain ⟨a, ha, h⟩ := bind_returns h
  cases h
  rw [slotOf, AList.lookup_insert]
  exact updateParameter_value ha

/-- A number in a localparam stays. -/
theorem addLocalparam_slotOf {lps lps' : Objects} {name : String} {value : PyVal}
    (h : addLocalparam lps name value = .ok lps') {z : String} {w : Int}
    (hz : slotOf lps z = some w) : slotOf lps' z = some w := by
  obtain ⟨a, ha, h⟩ := bind_returns h
  cases h
  obtain ⟨old, hold, hval⟩ := Option.bind_eq_some_iff.mp hz
  obtain ⟨v, hv, hint⟩ := Option.bind_eq_some_iff.mp hval
  by_cases hname : z = name
  · subst hname
    have hne : v ≠ .none := fun he => by rw [he] at hint; cases hint
    rw [hold, Option.getD_some] at ha
    rw [slotOf, AList.lookup_insert, Option.bind_some, updateParameter_keeps ha hv hne]
    exact hint
  · rw [slotOf, AList.lookup_insert_ne hname]
    exact hz

/-! ## Lists of indices -/

/-- The indices of the elements that satisfy `p`. -/
def indicesOf {α : Type} (p : α → Bool) (xs : List α) : List Nat :=
  (xs.zipIdx.filter fun d => p d.1).map (·.2)

theorem indicesOf_sublist {α : Type} (p : α → Bool) (xs : List α) :
    (indicesOf p xs).Sublist (List.range xs.length) := by
  have hall : xs.zipIdx.map (·.2) = List.range xs.length := by
    rw [List.zipIdx_map_snd, List.range_eq_range']
  rw [← hall]
  exact List.filter_sublist.map _

theorem mem_indicesOf {α : Type} {p : α → Bool} {xs : List α} {n : Nat} :
    n ∈ indicesOf p xs ↔ ∃ x, xs[n]? = some x ∧ p x = true := by
  simp only [indicesOf, List.mem_map, List.mem_filter, Prod.exists, List.mem_zipIdx_iff_getElem?]
  constructor
  · rintro ⟨x, i, ⟨hx, hp⟩, rfl⟩
    exact ⟨x, hx, hp⟩
  · rintro ⟨x, hx, hp⟩
    exact ⟨x, n, ⟨hx, hp⟩, rfl⟩

theorem filter_lt_range {r n : Nat} (h : r ≤ n) :
    (List.range n).filter (· < r) = List.range r := by
  obtain ⟨k, rfl⟩ := Nat.exists_eq_add_of_le h
  rw [List.range_add, List.filter_append, List.filter_eq_self.mpr (by simp),
    List.filter_eq_nil_iff.mpr (by simp), List.append_nil]

theorem filter_le_range {r n : Nat} (h : r ≤ n) :
    (List.range n).filter (r ≤ ·) = List.range' r (n - r) := by
  obtain ⟨k, rfl⟩ := Nat.exists_eq_add_of_le h
  rw [List.range_add, List.filter_append, List.filter_eq_nil_iff.mpr (by simp), List.nil_append,
    List.filter_eq_self.mpr (by simp), List.range'_eq_map_range, Nat.add_sub_cancel_left]

/-- Indices that are all smaller than their number are the first ones. -/
theorem indicesOf_eq_range {α : Type} {p : α → Bool} {xs : List α}
    (h : ∀ n ∈ indicesOf p xs, n < (indicesOf p xs).length) :
    indicesOf p xs = List.range (indicesOf p xs).length := by
  have hsub := indicesOf_sublist p xs
  have hle := hsub.length_le
  rw [List.length_range] at hle
  have hsub' : (indicesOf p xs).Sublist (List.range (indicesOf p xs).length) := by
    rw [← filter_lt_range hle]
    have hkeep : (indicesOf p xs).filter (· < (indicesOf p xs).length) = indicesOf p xs :=
      List.filter_eq_self.mpr fun n hn => by simpa using h n hn
    have hmap := hsub.filter (· < (indicesOf p xs).length)
    rwa [hkeep] at hmap
  exact hsub'.eq_of_length (by rw [List.length_range])

/-- When the elements that satisfy `p` come first, the others follow. -/
theorem indicesOf_not {α : Type} {p : α → Bool} {xs : List α} {r : Nat}
    (h : indicesOf p xs = List.range r) :
    indicesOf (fun x => !p x) xs = List.range' r (xs.length - r) := by
  have hp : ∀ d ∈ xs.zipIdx, (!p d.1) = decide (r ≤ d.2) := by
    intro d hd
    have hd' := List.mem_zipIdx_iff_getElem?.mp hd
    have hmem : p d.1 = true ↔ d.2 < r := by
      rw [← List.mem_range, ← h, mem_indicesOf]
      constructor
      · intro hpd
        exact ⟨d.1, hd', hpd⟩
      · rintro ⟨x, hx, hpx⟩
        rw [hd', Option.some.injEq] at hx
        rw [hx]
        exact hpx
    cases hpd : p d.1 with
    | false =>
      rw [hpd] at hmem
      simp at hmem ⊢
      omega
    | true =>
      rw [hpd] at hmem
      simp at hmem ⊢
      omega
  have hr : r ≤ xs.length := by
    have := (indicesOf_sublist p xs).length_le
    rwa [h, List.length_range, List.length_range] at this
  have hall : xs.zipIdx.map (·.2) = List.range xs.length := by
    rw [List.zipIdx_map_snd, List.range_eq_range']
  rw [indicesOf, List.filter_congr hp]
  have hpush : ∀ l : List (α × Nat), (l.filter fun d => decide (r ≤ d.2)).map (·.2)
      = (l.map (·.2)).filter (r ≤ ·) := by
    intro l
    rw [List.filter_map]
    rfl
  rw [hpush, hall, filter_le_range hr]

/-! ## Visiting an instance -/

/-- The sub-arbiter of the device with number `t`. -/
def subArbOf (maxDevicesPerArb : Option Nat) (t : Nat) : Int :=
  match maxDevicesPerArb with
  | none => 0
  | some k => (t / k : Nat)

/-- Where a device comes from. -/
def Entry.source (e : Entry) : String × Nat × WbDevice := (e.instname, e.index, e.dev.toWbDevice)

section

variable {upper : String → String} {s s' : WbState} {instname : String}

/-- Connecting a device appends its name to `wb_ids` and touches nothing else but ports. -/
theorem assignWbInterface_ok {id : Nat} {suffix candrSuffix : String} {arb : Int}
    (h : assignWbInterface upper s instname id suffix candrSuffix arb = .ok s') :
    ∃ ports, s' = { s with
      wbIds := Function.update s.wbIds instname (s.wbIds instname ++ [wbId upper instname id])
      ports } := by
  unfold assignWbInterface at h
  obtain ⟨_, -, h⟩ := bind_returns h
  obtain ⟨_, -, h⟩ := bind_returns h
  obtain ⟨_, -, h⟩ := bind_returns h
  obtain ⟨_, -, h⟩ := bind_returns h
  obtain ⟨_, -, h⟩ := bind_returns h
  obtain ⟨_, -, h⟩ := bind_returns h
  obtain ⟨_, -, h⟩ := bind_returns h
  obtain ⟨_, -, h⟩ := bind_returns h
  obtain ⟨_, -, h⟩ := bind_returns h
  obtain ⟨_, -, h⟩ := bind_returns h
  obtain ⟨_, -, h⟩ := bind_returns h
  cases h
  exact ⟨_, rfl⟩

/-- The first loop: names for all the devices, sub-arbiters by their numbers. -/
theorem assignLoop_ok {max : Option Nat} : ∀ {devs : List (WbDevice × Nat)} {s s' : WbState}
    {out : List (WbDevice × Nat × Int)},
    assignLoop upper max instname s devs = .ok (s', out) →
    (∃ ports, s' = { s with
      wbDeviceNum := s.wbDeviceNum + devs.length
      wbIds := Function.update s.wbIds instname
        (s.wbIds instname ++ devs.map fun d => wbId upper instname d.2)
      ports })
    ∧ out = (devs.zipIdx s.wbDeviceNum).map fun d => (d.1.1, d.1.2, subArbOf max d.2)
  | [], s, s', out, h => by
    cases h
    refine ⟨⟨s.ports, ?_⟩, rfl⟩
    simp
  | (dev, n) :: devs, s, s', out, h => by
    obtain ⟨arb, harb, h⟩ := bind_returns h
    obtain ⟨s₁, h₁, h⟩ := bind_returns h
    obtain ⟨⟨s₂, rest⟩, h₂, h⟩ := bind_returns h
    cases h
    obtain ⟨ports₁, rfl⟩ := assignWbInterface_ok h₁
    obtain ⟨⟨ports, hs'⟩, hout⟩ := assignLoop_ok h₂
    have harb' : arb = subArbOf max s.wbDeviceNum := by
      cases max with
      | none => cases harb; rfl
      | some k =>
        cases k with
        | zero => cases harb
        | succ k => cases harb; rfl
    refine ⟨⟨ports, ?_⟩, ?_⟩
    · rw [hs']
      simp [Nat.add_assoc, Nat.add_comm 1]
    · rw [hout, harb']
      rfl

/-- Where and how a list of devices was placed: `base_addr` before and after, and each device. -/
def PlacedFrom (alignment : Int) (pass : Pass) : Int → List PlacedDevice → Int → Prop
  | b, [], b' => b' = b
  | b, d :: ds, b' =>
    d.baseAddr = pass.base b d.toWbDevice
    ∧ d.highAddr = d.baseAddr + roundedSize alignment d.nbytes - 1
    ∧ PlacedFrom alignment pass (pass.next b d.highAddr) ds b'

theorem PlacedFrom.append {alignment : Int} {pass : Pass} :
    ∀ {ds es : List PlacedDevice} {b b' b'' : Int}, PlacedFrom alignment pass b ds b' →
    PlacedFrom alignment pass b' es b'' → PlacedFrom alignment pass b (ds ++ es) b''
  | [], _, _, _, _, h₁, h₂ => by
    rw [PlacedFrom] at h₁
    rw [h₁] at h₂
    exact h₂
  | _ :: _, _, _, _, _, h₁, h₂ => ⟨h₁.1, h₁.2.1, PlacedFrom.append h₁.2.2 h₂⟩

/-- The numbering of the devices met so far. -/
structure Numbered (upper : String → String) (max : Option Nat) (baseWbSlaves : Nat)
    (s : WbState) : Prop where
  count : s.nWbSlaves = s.wbDevices.length
  slots : ∀ t e, s.wbDevices[t]? = some e →
    slotOf s.localparams (wbId upper e.instname e.index) = some (t + baseWbSlaves : Nat)
  subArbs : ∀ t e, s.wbDevices[t]? = some e → e.dev.subArbId = subArbOf max t

theorem getElem?_concat_cases {α : Type} {l : List α} {x y : α} {t : Nat}
    (h : (l ++ [x])[t]? = some y) : l[t]? = some y ∨ t = l.length ∧ y = x := by
  rcases Nat.lt_trichotomy t l.length with hlt | rfl | hgt
  · rw [List.getElem?_append_left hlt] at h
    exact Or.inl h
  · rw [List.getElem?_concat_length, Option.some.injEq] at h
    exact Or.inr ⟨rfl, h.symm⟩
  · rw [List.getElem?_eq_none (by simp; omega)] at h
    cases h

/-- Indexing `wb_ids` raises an exception unless every index is in range. -/
theorem placeLoop_indices {alignment : Int} {base : Nat} {pass : Pass} :
    ∀ {devs : List (WbDevice × Nat × Int)} {s s' : WbState},
    placeLoop alignment base pass instname s devs = .ok s' →
    ∀ d ∈ devs, d.2.1 < (s.wbIds instname).length
  | [], _, _, _ => by simp
  | (dev, n, arb) :: devs, s, s', h => by
    obtain ⟨size, -, h⟩ := bind_returns h
    obtain ⟨name, hname, h⟩ := bind_returns h
    obtain ⟨lps, -, h⟩ := bind_returns h
    have hrest := placeLoop_indices h
    intro d hd
    rcases List.mem_cons.mp hd with rfl | hd
    · by_contra hlt
      rw [nthWbId, List.getElem?_eq_none (not_lt.mp hlt)] at hname
      cases hname
    · exact hrest d hd

/-- The second loop keeps the numbering, when `wb_ids` has the devices' own names. -/
theorem placeLoop_ok {alignment : Int} {base : Nat} {pass : Pass} {max : Option Nat} :
    ∀ {devs : List (WbDevice × Nat)} {s s' : WbState},
    placeLoop alignment base pass instname s
      ((devs.zipIdx s.wbDevices.length).map fun d => (d.1.1, d.1.2, subArbOf max d.2)) = .ok s' →
    (∀ d ∈ devs, (s.wbIds instname)[d.2]? = some (wbId upper instname d.2)) →
    Numbered upper max base s →
    Numbered upper max base s' ∧ s'.wbIds = s.wbIds ∧ s'.wbDeviceNum = s.wbDeviceNum
    ∧ ∃ new : List Entry, s'.wbDevices = s.wbDevices ++ new
      ∧ new.map Entry.source = devs.map (fun d => (instname, d.2, d.1))
      ∧ PlacedFrom alignment pass s.baseAddr (new.map (·.dev)) s'.baseAddr
  | [], s, s', h, _, hn => by
    cases h
    exact ⟨hn, rfl, rfl, [], by simp, rfl, rfl⟩
  | (dev, n) :: devs, s, s', h, hids, hn => by
    rw [List.zipIdx_cons, List.map_cons] at h
    obtain ⟨size, hsize, h₁⟩ := bind_returns h
    obtain ⟨name, hname, h₂⟩ := bind_returns h₁
    obtain ⟨lps, hlps, h₃⟩ := bind_returns h₂
    have hsize' : size = roundedSize alignment dev.nbytes := by
      unfold roundUp at hsize
      split at hsize
      · cases hsize
      · cases hsize
        rfl
    have hname' : name = wbId upper instname n := by
      have hid := hids (dev, n) List.mem_cons_self
      rw [nthWbId, hid] at hname
      cases hname
      rfl
    subst hsize' hname'
    -- the state after this device is numbered again
    let placed : PlacedDevice :=
      { dev with
        baseAddr := pass.base s.baseAddr dev
        highAddr := pass.base s.baseAddr dev + roundedSize alignment dev.nbytes - 1
        subArbId := subArbOf max s.wbDevices.length }
    let s₁ : WbState :=
      { s with
        baseAddr := pass.next s.baseAddr placed.highAddr
        nWbSlaves := s.nWbSlaves + 1
        wbDevices := s.wbDevices ++ [⟨instname, n, placed⟩]
        localparams := lps }
    have hn₁ : Numbered upper max base s₁ := by
      refine ⟨by simp [s₁, hn.count], ?_, ?_⟩
      · intro t e ht
        rcases getElem?_concat_cases ht with ht | ⟨rfl, rfl⟩
        · exact addLocalparam_slotOf hlps (hn.slots t e ht)
        · rw [← hn.count]
          exact addLocalparam_slotOf_self hlps
      · intro t e ht
        rcases getElem?_concat_cases ht with ht | ⟨rfl, rfl⟩
        · exact hn.subArbs t e ht
        · rfl
    have hlen : s.wbDevices.length + 1 = s₁.wbDevices.length := by simp [s₁]
    rw [hlen] at h₃
    obtain ⟨hn', hw, hnum, new, hnew, hsrc, hplaced⟩ := placeLoop_ok (s := s₁) h₃
      (fun d hd => hids d (List.mem_cons_of_mem _ hd)) hn₁
    refine ⟨hn', hw, hnum, ⟨instname, n, placed⟩ :: new, ?_, ?_, ?_⟩
    · rw [hnew]
      simp [s₁]
    · rw [List.map_cons, hsrc]
      rfl
    · exact ⟨rfl, rfl, hplaced⟩

/-- The devices a pass places, with where they come from. -/
def Pass.sources (pass : Pass) (inst : String × Instance) : List (String × Nat × WbDevice) :=
  (inst.2.wbDevices.zipIdx.filter fun d => pass.selects d.1).map fun d => (inst.1, d.2, d.1)

/-- The instance's own numbers of the devices a pass places. -/
def Pass.indices (pass : Pass) (inst : String × Instance) : List Nat :=
  indicesOf pass.selects inst.2.wbDevices

/-- The state between two visits. -/
structure Between (upper : String → String) (m : VerilogModule) (s : WbState) : Prop where
  numbered : Numbered upper m.maxDevicesPerArb m.baseWbSlaves s
  num : s.wbDeviceNum = s.wbDevices.length

variable {m : VerilogModule} {alignment : Int} {pass : Pass} {inst : String × Instance}

/-- A visit that returns has found all its indices in `wb_ids`. -/
theorem visitInstance_indices (h : visitInstance upper m alignment pass s inst = .ok s') :
    ∀ n ∈ pass.indices inst, n < (s.wbIds inst.1).length + (pass.indices inst).length := by
  obtain ⟨⟨s₁, devs⟩, h₁, h₂⟩ := bind_returns h
  obtain ⟨⟨ports, rfl⟩, rfl⟩ := assignLoop_ok h₁
  have hidx := placeLoop_indices h₂
  intro n hn
  obtain ⟨d, hd, rfl⟩ := List.mem_map.mp hn
  obtain ⟨t, ht⟩ := List.mem_iff_getElem?.mp hd
  have hmem : (d, s.wbDeviceNum + t) ∈
      (inst.2.wbDevices.zipIdx.filter fun d => pass.selects d.1).zipIdx s.wbDeviceNum := by
    rw [List.mem_zipIdx_iff_le_and_getElem?_sub]
    simpa using ht
  have hlt := hidx _ (List.mem_map.mpr ⟨_, hmem, rfl⟩)
  simpa [Pass.indices, indicesOf] using hlt

/-- **A visit numbers the instance's devices and gives each its own name.** -/
theorem visitInstance_ok (h : visitInstance upper m alignment pass s inst = .ok s')
    (hb : Between upper m s) {r : Nat}
    (hids : s.wbIds inst.1 = (List.range r).map (wbId upper inst.1))
    (hidx : pass.indices inst = List.range' r (pass.indices inst).length) :
    Between upper m s'
    ∧ s'.wbIds = Function.update s.wbIds inst.1
        (s.wbIds inst.1 ++ (pass.indices inst).map (wbId upper inst.1))
    ∧ ∃ new : List Entry, s'.wbDevices = s.wbDevices ++ new
      ∧ new.map Entry.source = pass.sources inst
      ∧ PlacedFrom alignment pass s.baseAddr (new.map (·.dev)) s'.baseAddr := by
  obtain ⟨⟨s₁, devs⟩, h₁, h₂⟩ := bind_returns h
  obtain ⟨⟨ports, rfl⟩, rfl⟩ := assignLoop_ok h₁
  rw [hb.num] at h₂
  have hnames : s.wbIds inst.1 ++ (pass.indices inst).map (wbId upper inst.1)
      = (List.range (r + (pass.indices inst).length)).map (wbId upper inst.1) := by
    rw [hids, hidx, ← List.map_append, List.length_range', List.range_add,
      List.range'_eq_map_range]
  have hmap : ((inst.2.wbDevices.zipIdx.filter fun d => pass.selects d.1).map
      fun d => wbId upper inst.1 d.2) = (pass.indices inst).map (wbId upper inst.1) := by
    rw [Pass.indices, indicesOf, List.map_map]
    rfl
  obtain ⟨hn, hw, hnum, new, hnew, hsrc, hplaced⟩ := placeLoop_ok h₂ (by
      intro d hd
      have hmem : d.2 ∈ pass.indices inst := List.mem_map.mpr ⟨d, hd, rfl⟩
      rw [hidx, List.mem_range'_1] at hmem
      simp only [Function.update_self, hmap, hnames, List.getElem?_map]
      rw [List.getElem?_range hmem.2]
      rfl)
    ⟨hb.numbered.count, hb.numbered.slots, hb.numbered.subArbs⟩
  refine ⟨⟨hn, ?_⟩, ?_, new, hnew, hsrc, hplaced⟩
  · have hlen := congrArg List.length hsrc
    rw [List.length_map, List.length_map] at hlen
    rw [hnum, hnew, List.length_append, hlen]
  · rw [hw, hmap]

/-- **A pass over instances with distinct names.** -/
theorem visitAll_ok : ∀ {insts : List (String × Instance)} {s s' : WbState},
    visitAll upper m alignment pass s insts = .ok s' → Between upper m s →
    (insts.map (·.1)).Nodup →
    (∀ inst ∈ insts, ∃ r, s.wbIds inst.1 = (List.range r).map (wbId upper inst.1) ∧
      ∀ st st', st.wbIds inst.1 = s.wbIds inst.1 →
        visitInstance upper m alignment pass st inst = .ok st' →
        pass.indices inst = List.range' r (pass.indices inst).length) →
    Between upper m s'
    ∧ (∀ inst ∈ insts, s'.wbIds inst.1
        = s.wbIds inst.1 ++ (pass.indices inst).map (wbId upper inst.1)
      ∧ pass.indices inst
        = List.range' (s.wbIds inst.1).length (pass.indices inst).length)
    ∧ (∀ name, name ∉ insts.map (·.1) → s'.wbIds name = s.wbIds name)
    ∧ ∃ new : List Entry, s'.wbDevices = s.wbDevices ++ new
      ∧ new.map Entry.source = insts.flatMap pass.sources
      ∧ PlacedFrom alignment pass s.baseAddr (new.map (·.dev)) s'.baseAddr
  | [], s, s', h, hb, _, _ => by
    cases h
    exact ⟨hb, by simp, fun _ _ => rfl, [], by simp, rfl, rfl⟩
  | inst :: insts, s, s', h, hb, hnodup, hready => by
    obtain ⟨s₁, h₁, h₂⟩ := bind_returns h
    rw [List.map_cons, List.nodup_cons] at hnodup
    obtain ⟨r, hids, hidx⟩ := hready inst List.mem_cons_self
    have hidx := hidx s s₁ rfl h₁
    obtain ⟨hb₁, hw₁, new₁, hnew₁, hsrc₁, hpl₁⟩ := visitInstance_ok h₁ hb hids hidx
    -- the other instances find their own names untouched
    have hother : ∀ name, name ≠ inst.1 → s₁.wbIds name = s.wbIds name := by
      intro name hne
      rw [hw₁, Function.update_of_ne hne]
    have hne : ∀ inst' ∈ insts, inst'.1 ≠ inst.1 := fun inst' hi he =>
      hnodup.1 (he ▸ List.mem_map_of_mem hi)
    obtain ⟨hb₂, hw₂, hrest₂, new₂, hnew₂, hsrc₂, hpl₂⟩ := visitAll_ok h₂ hb₁ hnodup.2 (by
      intro inst' hi
      obtain ⟨r', hids', hidx'⟩ := hready inst' (List.mem_cons_of_mem _ hi)
      rw [hother _ (hne inst' hi)]
      exact ⟨r', hids', hidx'⟩)
    refine ⟨hb₂, ?_, ?_, new₁ ++ new₂, ?_, ?_, ?_⟩
    · intro inst' hi
      rcases List.mem_cons.mp hi with rfl | hi
      · rw [hrest₂ _ hnodup.1, hw₁, Function.update_self]
        refine ⟨rfl, ?_⟩
        rw [hids, List.length_map, List.length_range]
        exact hidx
      · have := hw₂ inst' hi
        rwa [hother _ (hne inst' hi)] at this
    · intro name hname
      rw [List.map_cons, List.mem_cons, not_or] at hname
      rw [hrest₂ name hname.2, hother name hname.1]
    · rw [hnew₂, hnew₁, List.append_assoc]
    · rw [List.map_append, hsrc₁, hsrc₂, List.flatMap_cons]
    · rw [List.map_append]
      exact hpl₁.append hpl₂

end

end MlibDevel.Verilog
