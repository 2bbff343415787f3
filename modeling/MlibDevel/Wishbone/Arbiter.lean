import MlibDevel.Lib.Verilog

/-!
# The Wishbone arbiter (`wbs_arbiter.v`): address decoding

The arbiter compares the master's address with the ranges of all its slaves at once, drives the
cycle lines of the slaves whose range holds the address, and presents the address relative to the
selected slave's base.

`SLAVE_ADDR` and `SLAVE_HIGH` are single vectors that hold the bounds of slave `i` in bits
`32*(i+1)-1 : 32*i`.
-/

namespace MlibDevel.Wishbone

open Lib

/-- The parameters of a `wbs_arbiter` instance. -/
structure WbsArbiter where
  nSlaves : Nat
  slaveAddr : Nat
  slaveHigh : Nat

namespace WbsArbiter

variable (a : WbsArbiter) (adr : BitVec 32)

/-- `wbs_sel[i]` -/
def wbsSelBit (i : Nat) : Bool :=
  slice 32 i a.slaveAddr ≤ adr && adr ≤ slice 32 i a.slaveHigh

/-- `wbs_sel` -/
def wbsSel : List Bool := (List.range a.nSlaves).map (a.wbsSelBit adr)

/-- `encode`: the index of the last bit that is set, or zero; the result has `N_SLAVES` bits. -/
def encode (sel : Nat → Bool) : Nat :=
  (List.range a.nSlaves).foldl (fun enc trans => if sel trans then trans % 2 ^ a.nSlaves else enc) 0

/-- `wbs_adr_o_int`: the address relative to the base of the encoded slave. -/
def wbsAdrO : BitVec 32 := adr - slice 32 (a.encode (a.wbsSelBit adr)) a.slaveAddr

/-- The cycle lines the arbiter drives when the master does (`cyc`) or does not start a cycle. -/
def wbsCycO (cyc : Bool) : List Bool :=
  if cyc then a.wbsSel adr else List.replicate a.nSlaves false

@[simp] theorem length_wbsSel : (a.wbsSel adr).length = a.nSlaves := by simp [wbsSel]

@[simp] theorem length_wbsCycO (cyc : Bool) : (a.wbsCycO adr cyc).length = a.nSlaves := by
  cases cyc <;> simp [wbsCycO]

end WbsArbiter

/-- After the bits from `i` on are seen, `encode` holds `i` if no later bit is set. -/
theorem foldl_encode_eq {n w : Nat} {sel : Nat → Bool} {i : Nat} (hi : i < n) (hsel : sel i = true)
    (huniq : ∀ j, j < n → sel j = true → j = i) :
    (List.range n).foldl (fun enc t => if sel t then t % w else enc) 0 = i % w := by
  have hstep : ∀ m, m ≤ n →
      (List.range m).foldl (fun enc t => if sel t then t % w else enc) 0
        = if i < m then i % w else 0 := by
    intro m hm
    induction m with
    | zero => simp
    | succ m ih =>
      rw [List.range_succ, List.foldl_append, ih (by omega)]
      simp only [List.foldl_cons, List.foldl_nil]
      by_cases hm' : sel m = true
      · rw [if_pos hm', huniq m (by omega) hm', if_pos (by omega)]
      · have hne : m ≠ i := fun he => hm' (he ▸ hsel)
        rw [if_neg hm']
        exact if_congr (by omega) rfl rfl
  rw [hstep n le_rfl, if_pos hi]

/-- **When just one slave is selected, the address is relative to its base.** -/
theorem WbsArbiter.wbsAdrO_eq {a : WbsArbiter} {adr : BitVec 32} {i : Nat} (hi : i < a.nSlaves)
    (hsel : a.wbsSelBit adr i = true)
    (huniq : ∀ j, j < a.nSlaves → a.wbsSelBit adr j = true → j = i) :
    a.wbsAdrO adr = adr - slice 32 i a.slaveAddr := by
  have hlt : i < 2 ^ a.nSlaves := lt_trans hi Nat.lt_two_pow_self
  rw [wbsAdrO, encode, foldl_encode_eq hi hsel huniq, Nat.mod_eq_of_lt hlt]

end MlibDevel.Wishbone
