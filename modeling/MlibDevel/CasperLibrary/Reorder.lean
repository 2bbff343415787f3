import Mathlib.Dynamics.PeriodicPts.Lemmas
import Mathlib.Data.Int.ModEq
import Mathlib.Data.Nat.Log
import MlibDevel.Lib.Cycles
import MlibDevel.Lib.Ram

/-!
# The reorder block (`reorder_init.m`, `compute_order.m`)

A reorder block takes frames of words and puts out each frame in another order, one frame later.
With a single buffer it does so in place: a word is read at an address and the next one written
there, so a frame must be written to where the frame before is read, and the addresses change from
frame to frame.  What `reorder_init` draws depends on the order of the map:

* for order 1 a delay of a frame,
* for order 2 an address counter with a bit more, which selects linear or mapped addresses,
* otherwise a memory with the current map, in which each entry is replaced by its image as it is
  used.

The model has a step for each clock cycle and no latencies.  In all three the addresses of frame `v`
are the positions mapped `v` times (`frameAddr`), so the blocks do what they are for
(`reorderInit_reorders`).
-/

namespace MlibDevel.CasperLibrary

open Lib

/-! ## The order of a map -/

section

variable {n : Nat} (map : Fin n → Fin n)

/--
The `while` loop of `compute_order` for the element `i`, from the second test of its condition on.
`fuel` bounds the number of tests.
-/
def cycleLoop (i : Fin n) : Nat → Fin n → Nat → Option Nat
  | 0, _, _ => none
  | fuel + 1, j, curOrder =>
    if j = i then some curOrder else cycleLoop i fuel (map j) (curOrder + 1)

/-- `compute_order`: `n` tests are enough for a permutation. -/
def computeOrder : Option Nat :=
  (List.finRange n).foldlM (fun order i => (cycleLoop map i n (map i) 1).map order.lcm) 1

variable {map}

/-- The loop ends at the first return to the element. -/
theorem cycleLoop_eq (i : Fin n) : ∀ (fuel k : Nat), 0 < k → k ≤ Function.minimalPeriod map i →
    Function.minimalPeriod map i < k + fuel →
    cycleLoop map i fuel (map^[k] i) k = some (Function.minimalPeriod map i)
  | 0, k, _, hle, hlt => by omega
  | fuel + 1, k, hk, hle, hlt => by
    rw [cycleLoop]
    split
    · next heq =>
      have hperiod : Function.IsPeriodicPt map k i := heq
      rw [Nat.le_antisymm hle (hperiod.minimalPeriod_le hk)]
    · next hne =>
      have hlt' : k < Function.minimalPeriod map i := by
        refine Nat.lt_of_le_of_ne hle fun hk => hne ?_
        rw [hk]
        exact Function.iterate_minimalPeriod
      rw [← Function.iterate_succ_apply' map k i]
      exact cycleLoop_eq i fuel (k + 1) (Nat.succ_pos k) hlt' (by omega)

theorem cycleLoop_minimalPeriod (hmap : Function.Injective map) (i : Fin n) :
    cycleLoop map i n (map i) 1 = some (Function.minimalPeriod map i) := by
  have hle : Function.minimalPeriod map i ≤ Fintype.card (Fin n) := Function.minimalPeriod_le_card
  rw [Fintype.card_fin] at hle
  exact cycleLoop_eq i n 1 Nat.one_pos
    (Function.minimalPeriod_pos_of_mem_periodicPts (hmap.mem_periodicPts i)) (by omega)

theorem foldlM_lcm (hmap : Function.Injective map) : ∀ (l : List (Fin n)) (order : Nat),
    ∃ order', l.foldlM (fun order i => (cycleLoop map i n (map i) 1).map order.lcm) order =
      some order' ∧
      ∀ k, order' ∣ k ↔ order ∣ k ∧ ∀ i ∈ l, Function.minimalPeriod map i ∣ k
  | [], order => ⟨order, rfl, fun k => by simp⟩
  | i :: l, order => by
    obtain ⟨order', hfold, hdvd⟩ := foldlM_lcm hmap l (order.lcm (Function.minimalPeriod map i))
    refine ⟨order', ?_, fun k => ?_⟩
    · rw [List.foldlM_cons, cycleLoop_minimalPeriod hmap]
      exact hfold
    · rw [hdvd, Nat.lcm_dvd_iff, List.forall_mem_cons, and_assoc]

/-- **`compute_order` returns how often to apply a permutation until all elements are back.** -/
theorem computeOrder_eq (hmap : Function.Injective map) :
    ∃ order, computeOrder map = some order ∧ ∀ k, order ∣ k ↔ map^[k] = id := by
  obtain ⟨order, hfold, hdvd⟩ := foldlM_lcm hmap (List.finRange n) 1
  refine ⟨order, hfold, fun k => ?_⟩
  rw [hdvd, funext_iff]
  constructor
  · rintro ⟨-, h⟩ i
    exact Function.isPeriodicPt_iff_minimalPeriod_dvd.mpr (h i (List.mem_finRange i))
  · intro h
    exact ⟨one_dvd k, fun i _ => Function.isPeriodicPt_iff_minimalPeriod_dvd.mp (h i)⟩

end

/-! ## What is drawn -/

/-- The inputs of a block in a clock cycle. -/
structure Sample (α : Type) where
  sync : Bool
  en : Bool
  din : α

section

variable {n : Nat} {α : Type} [NeZero n]

/-- A counter that `sync` resets and `en` advances. -/
def countUp (sync en : Bool) (counter : Fin n) : Fin n :=
  if sync then 0 else if en then counter + 1 else counter

variable (n α) in
/-- The registers of `delay_bram_en_plus`. -/
structure DelayBram where
  counter : Fin n
  buf : Fin n → α

variable (n α) in
/-- Order 1: `delay_bram_en_plus`, a delay by `n` words.  Its counter is not reset. -/
def delayBramEnPlus : Circuit (Sample α) α where
  State := DelayBram n α
  step s c :=
    { counter := countUp false c.en s.counter
      buf := ramStep s.buf c.en s.counter c.din }
  out s _ := s.buf s.counter

variable (n α) in
/-- The registers for order 2; the counter has a bit more than an address. -/
structure TwoMaps where
  counter : Fin (2 * n)
  buf : Fin n → α

/-- `Slice1` selects between `Slice2` and the map. -/
def TwoMaps.addr (map : Fin n → Fin n) (s : TwoMaps n α) : Fin n :=
  let slice2 := Fin.ofNat n s.counter
  if s.counter / n = 0 then slice2 else map slice2

/-- Order 2. -/
def reorderTwoMaps (map : Fin n → Fin n) : Circuit (Sample α) α where
  State := TwoMaps n α
  step s c :=
    { counter := countUp c.sync c.en s.counter
      buf := ramStep s.buf c.en (s.addr map) c.din }
  out s _ := s.buf (s.addr map)

variable (n α) in
/-- The registers for higher orders. -/
structure CurrentMap where
  counter : Fin n
  /-- `sync` in the cycle before -/
  dsync : Bool
  /-- the most significant bit of the counter in the cycle before, in `edge_detect` -/
  msbBefore : Bool
  mapSrc : Bool
  currentMap : Fin n → Fin n
  buf : Fin n → α

/-- The most significant bit of the counter. -/
def msb (counter : Fin n) : Bool := decide (n / 2 ≤ counter)

/-- `map_src`: set by a falling edge of the most significant bit, reset after a sync. -/
def CurrentMap.nextMapSrc (s : CurrentMap n α) : Bool :=
  let falling := s.msbBefore && !msb s.counter
  if s.dsync then false else if falling then true else s.mapSrc

/-- `map_mux` -/
def CurrentMap.addr (s : CurrentMap n α) : Fin n :=
  if s.nextMapSrc then s.currentMap s.counter else s.counter

/-- Orders above 2: the entry used is replaced by its image. -/
def reorderCurrentMap (map : Fin n → Fin n) : Circuit (Sample α) α where
  State := CurrentMap n α
  step s c :=
    { counter := countUp c.sync c.en s.counter
      dsync := c.sync
      msbBefore := msb s.counter
      mapSrc := s.nextMapSrc
      currentMap := ramStep s.currentMap c.en s.counter (map s.addr)
      buf := ramStep s.buf c.en s.addr c.din }
  out s _ := s.buf s.addr

end

/-- The values of a map as addresses. -/
def tableMap (map : List Nat) (h : ∀ j ∈ map, j < map.length) : Fin map.length → Fin map.length :=
  fun i => ⟨map.get i, h _ (List.getElem_mem i.isLt)⟩

/--
`reorder_init` for a single buffer.  Nothing is drawn for an empty map, and there are errors for a
length that is no power of two and in `compute_order`.
-/
def reorderInit {α : Type} (map : List Nat) : Option (Circuit (Sample α) α) :=
  if hne : map = [] then none
  else if h : ∀ j ∈ map, j < map.length then
    have : NeZero map.length := ⟨mt List.length_eq_zero_iff.mp hne⟩
    match computeOrder (tableMap map h) with
    | none => none
    | some order =>
      if 2 ^ Nat.clog 2 map.length ≠ map.length then none
      else if order = 1 then some (delayBramEnPlus map.length α)
      else if order = 2 then some (reorderTwoMaps (tableMap map h))
      else some (reorderCurrentMap (tableMap map h))
  else none

/-! ## What the blocks do -/

section

variable {n : Nat} {α : Type}

/-- The number of words that have come before a cycle. -/
def wordsBefore (input : Nat → Sample α) (t : Nat) : Nat := enabledBefore (fun t => (input t).en) t

/-- After a sync the words `w` come one after another, with any number of cycles between them. -/
structure Delivers (first : Sample α) (input : Nat → Sample α) (w : Nat → α) : Prop where
  first_sync : first.sync = true
  sync : ∀ t, (input t).sync = false
  din : ∀ t, (input t).en = true → (input t).din = w (wordsBefore input t)

/--
After a sync a block puts out, from the second frame on, the words of the frame before in the order
of the map.
-/
def Reorders (map : Fin n → Fin n) (c : Circuit (Sample α) α) : Prop :=
  ∀ (s : c.State) {first : Sample α} {input : Nat → Sample α} {w : Nat → α},
    Delivers first input w → ∀ (v : Nat) (i : Fin n) (t : Nat), (input t).en = true →
      wordsBefore input t = (v + 1) * n + i →
      c.output (c.step s first) input t = w (v * n + map i)

variable [NeZero n]

/-- The address of a position in a frame: the position mapped once for every frame before. -/
def frameAddr (map : Fin n → Fin n) (v i : Nat) : Fin n := map^[v] (Fin.ofNat n i)

theorem ofNat_val (i : Fin n) : Fin.ofNat n i = i := Fin.ext (Nat.mod_eq_of_lt i.isLt)

theorem frameAddr_inj {map : Fin n → Fin n} (hmap : Function.Injective map) (v i j : Nat)
    (hi : i < n) (hj : j < n) (h : frameAddr map v i = frameAddr map v j) : i = j := by
  have hval := congrArg Fin.val (hmap.iterate v h)
  rwa [Fin.val_ofNat, Fin.val_ofNat, Nat.mod_eq_of_lt hi, Nat.mod_eq_of_lt hj] at hval

/-- The position `map i` of a frame and the position `i` of the next have one address. -/
theorem frameAddr_succ (map : Fin n → Fin n) (v : Nat) (i : Fin n) :
    frameAddr map v (map i) = frameAddr map (v + 1) i := by
  rw [frameAddr, frameAddr, ofNat_val, ofNat_val, Function.iterate_succ_apply]

/-- A memory that is addressed so reorders. -/
theorem frameAddr_read {map : Fin n → Fin n} (hmap : Function.Injective map)
    {mem : Nat → Fin n → α} {addr : Nat → Fin n} {first : Sample α} {input : Nat → Sample α}
    {w : Nat → α} (hinput : Delivers first input w)
    (hmem : ∀ t, mem (t + 1) = ramStep (mem t) (input t).en (addr t) (input t).din)
    (haddr : ∀ t, addr t = frameAddr map (wordsBefore input t / n) (wordsBefore input t % n))
    {v : Nat} {i : Fin n} {t : Nat} (ht : (input t).en = true)
    (htn : wordsBefore input t = (v + 1) * n + i) :
    mem t (addr t) = w (v * n + map i) := by
  obtain ⟨u, hu, hun, hread⟩ := frame_read hmem (fun t _ => haddr t) (frameAddr_inj hmap) i.isLt
    (map i).isLt (frameAddr_succ map v i) ht htn
  rw [hread, hinput.din u hu]
  exact congrArg w hun

theorem val_countUp (counter : Fin n) :
    (countUp false true counter : Nat) = (counter + 1) % n := by
  show ((counter + 1 : Fin n) : Nat) = _
  rw [Fin.val_add, Fin.val_one', Nat.add_mod_mod]

/-- A counter counts the enabled cycles. -/
theorem countUp_run {counter : Nat → Fin n} {en : Nat → Bool}
    (hstep : ∀ t, counter (t + 1) = countUp false (en t) (counter t)) (t : Nat) :
    (counter t : Nat) = (counter 0 + enabledBefore en t) % n := by
  induction t with
  | zero => exact (Nat.mod_eq_of_lt (counter 0).isLt).symm
  | succ t ih =>
    rw [hstep]
    cases h : en t with
    | true => rw [val_countUp, ih, enabledBefore_succ h, Nat.mod_add_mod, Nat.add_assoc]
    | false =>
      rw [enabledBefore_succ_of_not h]
      exact ih

/-- A counter that starts after a sync holds the position in the frame. -/
theorem countUp_after_sync {counter : Nat → Fin n} {en : Nat → Bool} (hstart : counter 0 = 0)
    (hstep : ∀ t, counter (t + 1) = countUp false (en t) (counter t)) (t : Nat) :
    counter t = Fin.ofNat n (enabledBefore en t) := by
  apply Fin.ext
  rw [countUp_run hstep, hstart, Fin.val_ofNat]
  exact congrArg (· % n) (Nat.zero_add _)

/-! ### Order 1 -/

/-- A delay by a frame keeps the order. -/
theorem delayBramEnPlus_reorders : Reorders (@id (Fin n)) (delayBramEnPlus n α) := by
  intro s first input w hinput v i t ht htn
  let run := atCycle (delayBramEnPlus n α).step ((delayBramEnPlus n α).step s first) input
  let en := fun t => (input t).en
  let start : Nat := (run 0).counter
  have hcount : ∀ t, ((run t).counter : Nat) = (start + enabledBefore en t) % n :=
    countUp_run fun t => rfl
  have haddr : ∀ t, en t = true →
      (run t).counter = Fin.ofNat n (start + enabledBefore en t % n) := by
    intro t _
    apply Fin.ext
    rw [hcount, Fin.val_ofNat, Nat.add_mod_mod]
  have hinj : ∀ (v i j : Nat), i < n → j < n →
      Fin.ofNat n (start + i) = Fin.ofNat n (start + j) → i = j := by
    intro _ i j hi hj h
    have hmod : Nat.ModEq n (start + i) (start + j) := congrArg Fin.val h
    exact (Nat.ModEq.add_left_cancel' start hmod).eq_of_lt_of_lt hi hj
  let buf := fun t => (run t).buf
  have hbuf : ∀ t, buf (t + 1) = ramStep (buf t) (input t).en (run t).counter (input t).din :=
    fun _ => rfl
  show buf t (run t).counter = w (v * n + i)
  obtain ⟨u, hu, hun, hread⟩ := frame_read hbuf haddr hinj i.isLt i.isLt rfl ht htn
  rw [hread, hinput.din u hu]
  exact congrArg w hun

/-! ### Order 2 -/

/-- With a map that is its own inverse every second frame is linear. -/
theorem frameAddr_involutive {map : Fin n → Fin n} (hmap : Function.Involutive map) (v i : Nat) :
    frameAddr map v i = if v % 2 = 0 then Fin.ofNat n i else map (Fin.ofNat n i) := by
  rw [frameAddr]
  split
  · next h => rw [hmap.iterate_even (Nat.even_iff.mpr h)]; rfl
  · next h => rw [hmap.iterate_odd (Nat.odd_iff.mpr (by omega))]

/-- The bit of the counter above the address tells the parity of the frame. -/
theorem twoMaps_addr (map : Fin n → Fin n) (k : Nat) :
    (if (Fin.ofNat (2 * n) k : Nat) / n = 0 then Fin.ofNat n (Fin.ofNat (2 * n) k)
      else map (Fin.ofNat n (Fin.ofNat (2 * n) k))) =
    if k / n % 2 = 0 then Fin.ofNat n (k % n) else map (Fin.ofNat n (k % n)) := by
  have hslice : Fin.ofNat n (Fin.ofNat (2 * n) k : Nat) = Fin.ofNat n (k % n) := by
    apply Fin.ext
    rw [Fin.val_ofNat, Fin.val_ofNat, Fin.val_ofNat, Nat.mod_mul_left_mod, Nat.mod_mod]
  have hbit : (Fin.ofNat (2 * n) k : Nat) / n = k / n % 2 := by
    rw [Fin.val_ofNat, Nat.mul_comm, Nat.mod_mul_right_div_self]
  rw [hslice, hbit]

theorem reorderTwoMaps_reorders {map : Fin n → Fin n} (hmap : Function.Involutive map) :
    Reorders map (reorderTwoMaps map : Circuit (Sample α) α) := by
  intro s first input w hinput v i t ht htn
  let run := atCycle (reorderTwoMaps map).step ((reorderTwoMaps map).step s first) input
  have hstart : (run 0).counter = 0 := by
    show countUp first.sync first.en s.counter = 0
    rw [hinput.first_sync]
    rfl
  have hstep : ∀ t, (run (t + 1)).counter = countUp false (input t).en (run t).counter := by
    intro t
    show countUp (input t).sync _ _ = _
    rw [hinput.sync t]
  have hcount : ∀ t, (run t).counter =
      Fin.ofNat (2 * n) (wordsBefore input t) :=
    countUp_after_sync hstart hstep
  have haddr : ∀ t, (run t).addr map =
      frameAddr map (wordsBefore input t / n) (wordsBefore input t % n) := by
    intro t
    rw [frameAddr_involutive hmap, ← twoMaps_addr, ← hcount]
    rfl
  let buf := fun t => (run t).buf
  have hbuf : ∀ t, buf (t + 1) =
      ramStep (buf t) (input t).en ((run t).addr map) (input t).din :=
    fun _ => rfl
  show buf t ((run t).addr map) = w (v * n + map i)
  exact frameAddr_read hmap.injective hinput hbuf haddr ht htn

/-! ### Higher orders -/

/-- The registers when `k` words have come since the sync. -/
structure Mapped (map : Fin n → Fin n) (k : Nat) (s : CurrentMap n α) : Prop where
  counter : s.counter = Fin.ofNat n k
  mapSrc : s.nextMapSrc = decide (n ≤ k)
  /-- the entries of positions that the frame has passed -/
  passed : ∀ j : Fin n, j < k % n → s.currentMap j = map^[k / n + 1] j
  /-- the entries of the others, from the second frame on -/
  ahead : ∀ j : Fin n, k % n ≤ j → n ≤ k → s.currentMap j = map^[k / n] j

/-- The most significant bit falls when the counter comes round. -/
theorem msb_falls (hn : 2 ≤ n) (k : Nat) :
    (msb (Fin.ofNat n k) && !msb (Fin.ofNat n (k + 1))) = decide (k % n + 1 = n) := by
  have hlt : k % n < n := Nat.mod_lt k (by omega)
  rw [msb, msb, Fin.val_ofNat, Fin.val_ofNat]
  by_cases hlast : k % n + 1 = n
  · rw [(frame_last hlast).2, decide_eq_true hlast, decide_eq_true (by omega),
      decide_eq_false (by omega)]
    rfl
  · rw [(frame_next (by omega)).2, decide_eq_false hlast]
    by_cases hhalf : n / 2 ≤ k % n
    · rw [decide_eq_true hhalf, decide_eq_true (by omega)]
      rfl
    · rw [decide_eq_false hhalf]
      rfl

theorem Mapped.addr_eq {map : Fin n → Fin n} {k : Nat} {s : CurrentMap n α} (h : Mapped map k s) :
    s.addr = frameAddr map (k / n) (k % n) := by
  have hpos : Fin.ofNat n (k % n) = Fin.ofNat n k := by
    apply Fin.ext
    rw [Fin.val_ofNat, Fin.val_ofNat, Nat.mod_mod]
  rw [CurrentMap.addr, h.mapSrc, h.counter, frameAddr, hpos]
  by_cases hk : n ≤ k
  · rw [decide_eq_true hk, if_pos rfl]
    exact h.ahead _ (Nat.le_of_eq rfl) hk
  · rw [decide_eq_false hk, Nat.div_eq_of_lt (by omega)]
    rfl

/-- `map_src` in the next cycle. -/
theorem nextMapSrc_step (map : Fin n → Fin n) (s : CurrentMap n α) (c : Sample α)
    (hc : c.sync = false) : ((reorderCurrentMap map).step s c).nextMapSrc =
      ((msb s.counter && !msb (countUp false c.en s.counter)) || s.nextMapSrc) := by
  show (if c.sync then false else
    if msb s.counter && !msb (countUp c.sync c.en s.counter) then true else s.nextMapSrc) = _
  rw [hc, if_neg Bool.false_ne_true]
  cases msb s.counter && !msb (countUp false c.en s.counter) <;> rfl

/-- A cycle without a word. -/
theorem Mapped.idle {map : Fin n → Fin n} {k : Nat} {s : CurrentMap n α} (h : Mapped map k s)
    {c : Sample α} (hsync : c.sync = false) (hen : c.en = false) :
    Mapped map k ((reorderCurrentMap map).step s c) where
  counter := by
    show countUp c.sync c.en s.counter = _
    rw [hsync, hen]
    exact h.counter
  mapSrc := by
    rw [nextMapSrc_step map s c hsync, hen, ← h.mapSrc]
    show (msb s.counter && !msb s.counter || _) = _
    rw [Bool.and_not_self, Bool.false_or]
  passed := by
    show ∀ j : Fin n, _ → ramStep s.currentMap c.en _ _ j = _
    rw [hen]
    exact h.passed
  ahead := by
    show ∀ j : Fin n, _ → _ → ramStep s.currentMap c.en _ _ j = _
    rw [hen]
    exact h.ahead

/-- A cycle with a word: the entry at its position is replaced by its image. -/
theorem Mapped.word {map : Fin n → Fin n} (hn : 2 ≤ n) {k : Nat} {s : CurrentMap n α}
    (h : Mapped map k s) {c : Sample α} (hsync : c.sync = false) (hen : c.en = true) :
    Mapped map (k + 1) ((reorderCurrentMap map).step s c) := by
  have hcounter : countUp false true s.counter = Fin.ofNat n (k + 1) := by
    apply Fin.ext
    rw [val_countUp, h.counter, Fin.val_ofNat, Fin.val_ofNat, Nat.mod_add_mod]
  have hpos : (s.counter : Nat) = k % n := by rw [h.counter, Fin.val_ofNat]
  have himage : map s.addr = map^[k / n + 1] s.counter := by
    rw [h.addr_eq, frameAddr, Function.iterate_succ_apply', ← hpos, ofNat_val]
  have hmap : ((reorderCurrentMap map).step s c).currentMap =
      Function.update s.currentMap s.counter (map^[k / n + 1] s.counter) := by
    show ramStep s.currentMap c.en s.counter (map s.addr) = _
    rw [hen, himage]
    rfl
  -- an entry at or before the position of the word
  have hdone : ∀ j : Fin n, (j : Nat) ≤ k % n →
      ((reorderCurrentMap map).step s c).currentMap j = map^[k / n + 1] j := by
    intro j hj
    rw [hmap]
    by_cases hjc : j = s.counter
    · rw [hjc, Function.update_self]
    · rw [Function.update_of_ne hjc]
      refine h.passed j (Nat.lt_of_le_of_ne hj fun heq => hjc (Fin.ext ?_))
      rw [heq, hpos]
  constructor
  case counter =>
    show countUp c.sync c.en s.counter = _
    rw [hsync, hen, hcounter]
  case mapSrc =>
    rw [nextMapSrc_step map s c hsync, hen, hcounter, h.counter, msb_falls hn, h.mapSrc,
      ← Bool.decide_or]
    refine decide_eq_decide.mpr ⟨fun hor => ?_, fun hle => ?_⟩
    · have := Nat.mod_le k n
      omega
    · rcases Nat.lt_or_ge k n with hlt | hge
      · rw [Nat.mod_eq_of_lt hlt]
        omega
      · exact Or.inr hge
  case passed =>
    intro j hj
    rcases Nat.lt_or_ge (k % n + 1) n with hlt | hge
    · rw [(frame_next hlt).2] at hj
      rw [(frame_next hlt).1]
      exact hdone j (Nat.lt_succ_iff.mp hj)
    · rw [(frame_last (by omega)).2] at hj
      exact absurd hj (Nat.not_lt_zero _)
  case ahead =>
    intro j hj hk
    rcases Nat.lt_or_ge (k % n + 1) n with hlt | hge
    · -- the word is not the last of its frame, so there has been a whole frame before
      rw [(frame_next hlt).2] at hj
      have hk' : n ≤ k := by
        by_contra hk'
        rw [Nat.mod_eq_of_lt (by omega)] at hlt
        omega
      have hjc : j ≠ s.counter := by
        rintro rfl
        omega
      rw [(frame_next hlt).1, hmap, Function.update_of_ne hjc]
      exact h.ahead j (by omega) hk'
    · rw [(frame_last (by omega)).1]
      exact hdone j (by omega)

/-- The registers after a sync. -/
theorem Mapped.start {map : Fin n → Fin n} (s : CurrentMap n α) {first : Sample α}
    (hfirst : first.sync = true) : Mapped map 0 ((reorderCurrentMap map).step s first) where
  counter := by
    show countUp first.sync first.en s.counter = _
    rw [hfirst]
    rfl
  mapSrc := by
    rw [decide_eq_false (Nat.not_le.mpr (NeZero.pos n))]
    show (if first.sync then false else _) = _
    rw [hfirst, if_pos rfl]
  passed := fun j hj => absurd hj (by rw [Nat.zero_mod]; exact Nat.not_lt_zero _)
  ahead := fun j _ hk => absurd hk (Nat.not_le.mpr (NeZero.pos n))

theorem reorderCurrentMap_reorders {map : Fin n → Fin n} (hmap : Function.Injective map)
    (hn : 2 ≤ n) : Reorders map (reorderCurrentMap map : Circuit (Sample α) α) := by
  intro s first input w hinput v i t ht htn
  let run := atCycle (reorderCurrentMap map).step ((reorderCurrentMap map).step s first) input
  have hmapped : ∀ t, Mapped map (wordsBefore input t) (run t) := by
    intro t
    induction t with
    | zero => exact .start s hinput.first_sync
    | succ t ih =>
      cases hen : (input t).en with
      | true =>
        rw [wordsBefore, enabledBefore_succ hen]
        exact ih.word hn (hinput.sync t) hen
      | false =>
        rw [wordsBefore, enabledBefore_succ_of_not hen]
        exact ih.idle (hinput.sync t) hen
  let buf := fun t => (run t).buf
  have hbuf : ∀ t, buf (t + 1) = ramStep (buf t) (input t).en (run t).addr (input t).din :=
    fun _ => rfl
  show buf t (run t).addr = w (v * n + map i)
  exact frameAddr_read hmap hinput hbuf (fun t => (hmapped t).addr_eq) ht htn

end

/-! ### Every permutation -/

/-- A map of the positions into themselves that can be undone is a permutation. -/
theorem map_range_perm {n : Nat} {f g : Nat → Nat} (hf : ∀ i < n, f i < n)
    (hg : ∀ i < n, g (f i) = i) : ((List.range n).map f).Perm (List.range n) := by
  have hnodup : ((List.range n).map f).Nodup := by
    refine List.nodup_range.map_on fun i hi j hj heq => ?_
    rw [← hg i (List.mem_range.mp hi), heq, hg j (List.mem_range.mp hj)]
  have hsub : (List.range n).map f ⊆ List.range n := by
    intro k hk
    obtain ⟨i, hi, rfl⟩ := List.mem_map.mp hk
    exact List.mem_range.mpr (hf i (List.mem_range.mp hi))
  exact (List.subperm_of_subset hnodup hsub).perm_of_length_le (by simp)

theorem lt_length_of_perm {n : Nat} {map : List Nat} (h : map.Perm (List.range n)) :
    ∀ j ∈ map, j < map.length := by
  intro j hj
  rw [h.length_eq, List.length_range]
  exact List.mem_range.mp (h.mem_iff.mp hj)

theorem tableMap_injective {n : Nat} {map : List Nat} (hperm : map.Perm (List.range n))
    (h : ∀ j ∈ map, j < map.length) : Function.Injective (tableMap map h) := by
  have hget := List.nodup_iff_injective_get.mp (hperm.nodup_iff.mpr List.nodup_range)
  intro i j hij
  exact hget (congrArg Fin.val hij)

/-- **What `reorder_init` draws for a permutation reorders by it.** -/
theorem reorderInit_reorders (α : Type) {m : Nat} {map : List Nat}
    (hperm : map.Perm (List.range (2 ^ m))) :
    ∃ c : Circuit (Sample α) α, reorderInit map = some c ∧
      Reorders (tableMap map (lt_length_of_perm hperm)) c := by
  have h := lt_length_of_perm hperm
  have hlen : map.length = 2 ^ m := by rw [hperm.length_eq, List.length_range]
  have hne : map ≠ [] := by
    rintro rfl
    exact absurd hlen (Nat.two_pow_pos m).ne
  have : NeZero map.length := ⟨mt List.length_eq_zero_iff.mp hne⟩
  have hinj := tableMap_injective hperm h
  obtain ⟨order, horder, hdvd⟩ := computeOrder_eq hinj
  have hpow : ¬2 ^ Nat.clog 2 map.length ≠ map.length := by
    rw [hlen, Nat.clog_pow 2 m Nat.one_lt_two, not_not]
  rw [reorderInit, dif_neg hne, dif_pos h, horder]
  dsimp only
  rw [if_neg hpow]
  split
  · next h1 =>
    have hid : tableMap map h = id := by
      rw [← Function.iterate_one (tableMap map h)]
      exact (hdvd 1).mp (dvd_of_eq h1)
    refine ⟨_, rfl, ?_⟩
    rw [hid]
    exact delayBramEnPlus_reorders
  · next h1 =>
    split
    · next h2 =>
      have htwice := (hdvd 2).mp (dvd_of_eq h2)
      exact ⟨_, rfl, reorderTwoMaps_reorders fun i => congrFun htwice i⟩
    · refine ⟨_, rfl, reorderCurrentMap_reorders hinj ?_⟩
      -- the only map of one element has order 1
      by_contra hlt
      have hsub : Subsingleton (Fin map.length) := Fin.subsingleton_iff_le_one.mpr (by omega)
      have hid : (tableMap map h)^[1] = id := funext fun i => Subsingleton.elim _ _
      exact h1 (Nat.dvd_one.mp ((hdvd 1).mpr hid))

/-- The registers of a block after a sync. -/
def Synced {α ο : Type} (c : Circuit (Sample α) ο) : Type :=
  {s : c.State //
    ∃ (before : c.State) (first : Sample α), first.sync = true ∧ c.step before first = s}

/-- A block with registers can be synced. -/
theorem Synced.nonempty {α ο : Type} {c : Circuit (Sample α) ο} (hα : Nonempty α)
    (hc : Nonempty c.State) : Nonempty (Synced c) := by
  obtain ⟨din⟩ := hα
  obtain ⟨before⟩ := hc
  exact ⟨_, before, ⟨true, true, din⟩, rfl, rfl⟩

/-- What is drawn has registers. -/
theorem reorderInit_state {α : Type} (hα : Nonempty α) {map : List Nat} {c : Circuit (Sample α) α}
    (hc : reorderInit map = some c) : Nonempty c.State := by
  unfold reorderInit at hc
  split at hc
  · cases hc
  · next hne =>
    have : NeZero map.length := ⟨mt List.length_eq_zero_iff.mp hne⟩
    obtain ⟨din⟩ := hα
    split at hc
    · dsimp only at hc
      split at hc
      · cases hc
      · split at hc
        · cases hc
        · split at hc
          · cases hc
            exact ⟨⟨0, fun _ => din⟩⟩
          · split at hc
            · cases hc
              exact ⟨⟨0, fun _ => din⟩⟩
            · cases hc
              exact ⟨⟨0, false, false, false, id, fun _ => din⟩⟩
    · cases hc

/-- What a block puts out when a word comes in every cycle after the sync. -/
def reorderWords {α : Type} (c : Circuit (Sample α) α) (s : Synced c) (w : Nat → α) (t : Nat) : α :=
  c.output s.val (fun t => ⟨false, true, w t⟩) t

theorem wordsBefore_every {α : Type} (w : Nat → α) (t : Nat) :
    wordsBefore (fun t => ⟨false, true, w t⟩) t = t := by
  induction t with
  | zero => rfl
  | succ t ih => exact congrArg (· + 1) ih

/-- A block that is drawn for a map, word by word. -/
theorem reorderWords_eq {α : Type} {m : Nat} {f : Nat → Nat}
    (hperm : ((List.range (2 ^ m)).map f).Perm (List.range (2 ^ m))) {c : Circuit (Sample α) α}
    (hc : reorderInit ((List.range (2 ^ m)).map f) = some c) (s : Synced c) (w : Nat → α) (v : Nat)
    {i : Nat} (hi : i < 2 ^ m) :
    reorderWords c s w ((v + 1) * 2 ^ m + i) = w (v * 2 ^ m + f i) := by
  obtain ⟨c', hc', hreorders⟩ := reorderInit_reorders α hperm
  obtain rfl := Option.some.inj (hc.symm.trans hc')
  obtain ⟨_, before, first, hfirst, rfl⟩ := s
  have hdelivers : Delivers first (fun t => ⟨false, true, w t⟩) w :=
    ⟨hfirst, fun _ => rfl, fun t _ => by rw [wordsBefore_every]⟩
  have hi' : i < ((List.range (2 ^ m)).map f).length := by simpa using hi
  have htn : wordsBefore (fun t => ⟨false, true, w t⟩) ((v + 1) * 2 ^ m + i) =
      (v + 1) * ((List.range (2 ^ m)).map f).length + i := by
    rw [wordsBefore_every]
    simp
  have hout := hreorders before hdelivers v ⟨i, hi'⟩ _ rfl htn
  simpa [reorderWords, tableMap] using hout

/--
**The single-buffer reorder block.**  Of every frame but the first, position `i` of the output is
the word at position `map[i]` of the frame before, whatever was in the registers before the sync and
however the words are spread over the cycles.
-/
theorem reorder_frames (α : Type) {m : Nat} {map : List Nat}
    (hperm : map.Perm (List.range (2 ^ m))) :
    ∃ c : Circuit (Sample α) α, reorderInit map = some c ∧
      ∀ (s : c.State) (first : Sample α) (input : Nat → Sample α) (w : Nat → α),
        Delivers first input w → ∀ (v i t : Nat) (hi : i < map.length), (input t).en = true →
          wordsBefore input t = (v + 1) * 2 ^ m + i →
          c.output (c.step s first) input t = w (v * 2 ^ m + map[i]) := by
  obtain ⟨c, hc, hreorders⟩ := reorderInit_reorders α hperm
  refine ⟨c, hc, fun s first input w hinput v i t hi ht htn => ?_⟩
  have hlen : map.length = 2 ^ m := by rw [hperm.length_eq, List.length_range]
  rw [← hlen] at htn ⊢
  exact hreorders s hinput v ⟨i, hi⟩ t ht htn

/-- The map that the block has by default, and the words numbered: after 0 to 8 comes 7. -/
theorem reorder_frames_default :
    ∃ c : Circuit (Sample Nat) Nat, reorderInit [0, 7, 1, 3, 2, 5, 6, 4] = some c ∧
      ∀ s : c.State, c.output (c.step s ⟨true, false, 0⟩) (fun t => ⟨false, true, t⟩) 9 = 7 := by
  have hperm : [0, 7, 1, 3, 2, 5, 6, 4].Perm (List.range (2 ^ 3)) := by decide
  have hcount := wordsBefore_every (id : Nat → Nat)
  obtain ⟨c, hc, h⟩ := reorder_frames Nat hperm
  refine ⟨c, hc, fun s => ?_⟩
  exact h s _ _ id ⟨rfl, fun _ => rfl, fun t _ => (hcount t).symm⟩ 0 1 9 (by decide) rfl (hcount 9)

end MlibDevel.CasperLibrary
