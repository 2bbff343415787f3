import MlibDevel.Lib.Cycles
import MlibDevel.Lib.SelfSync
import MlibDevel.Lib.ShiftRegister
import MlibDevel.FortyGbe.Pkg

/-!
# The scrambler of the PCS (`IEEE802_3_XL_PCS_SCRAMBLER.vhd`, `IEEE802_3_XL_PCS_DESCRAMBLER.vhd`)

The payload of the blocks is one stream of bits, to each of which the bits 39 and 58 places before
it are added.  The scrambler does this for 64 bits at a time, the descrambler bit by bit.  Each is
compared with a bit-serial one (`Lib.Scrambles`, `Lib.Descrambles`).
-/

namespace MlibDevel.FortyGbe

open Lib

/-! ## The registers -/

/-- The inputs of the scrambler. -/
structure ScramblerIn where
  rst : Bool
  blockValid : Bool
  pcsBlock : Block
  deriving DecidableEq, Repr

/-- The registers of `IEEE802_3_XL_PCS_SCRAMBLER`. -/
structure Scrambler where
  blockValidD1 : Bool
  pcsBlockD1 : Block
  blockValidD2 : Bool
  pcsBlockD2 : Block
  deriving DecidableEq, Repr

namespace Scrambler

/-- `S_bits` -/
def sBit (s : Scrambler) (i : Nat) : Bool := s.pcsBlockD2.p.getLsbD (63 - i)

/-- `Y(i)`, from `bits_A_Section`, `bits_B_Section` and `bits_C_Section`. -/
def yBit (s : Scrambler) (i : Nat) : Bool :=
  let x := s.pcsBlockD1.p.getLsbD i
  if i ≤ 38 then x ^^ (s.sBit (38 - i) ^^ s.sBit (57 - i))
  else if i ≤ 57 then x ^^ (yBit s (i - 39) ^^ s.sBit (57 - i))
  else x ^^ (yBit s (i - 39) ^^ yBit s (i - 58))
termination_by i

/-- `Y` -/
def y (s : Scrambler) : BitVec 64 := vectorOf fun i : Fin 64 => s.yBit i

/-- A rising edge of `CLK_I`. -/
def edge (s : Scrambler) (i : ScramblerIn) : Scrambler where
  pcsBlockD1 := i.pcsBlock
  blockValidD1 := if i.rst then false else i.blockValid
  blockValidD2 := s.blockValidD1
  pcsBlockD2 := if s.blockValidD1 then ⟨s.pcsBlockD1.h, s.y⟩ else s.pcsBlockD2

end Scrambler

/-- The registers of `IEEE802_3_XL_PCS_DESCRAMBLER`. -/
structure Descrambler where
  descrambler : BitVec 58
  pcsBlockD1 : Block
  blockValid : Bool
  deriving DecidableEq, Repr

namespace Descrambler

/-- `poly_i` after the bits below `n`. -/
def poly (s : Descrambler) (p : BitVec 64) (n : Nat) : BitVec 58 :=
  (List.range n).foldl (fun r i => shiftIn r (p.getLsbD i)) s.descrambler

/-- `tempData_i(i)` -/
def tempBit (s : Descrambler) (p : BitVec 64) (i : Nat) : Bool :=
  p.getLsbD i ^^ (s.poly p i).getLsbD 38 ^^ (s.poly p i).getLsbD 57

/-- `tempdata` -/
def tempdata (s : Descrambler) (p : BitVec 64) : BitVec 64 :=
  vectorOf fun i : Fin 64 => s.tempBit p i

/-- A rising edge of `CLK_I`; the reset input is not used. -/
def edge (s : Descrambler) (blockValid : Bool) (pcsBlock : Block) : Descrambler :=
  if blockValid then ⟨s.poly pcsBlock.p 64, ⟨pcsBlock.h, s.tempdata pcsBlock.p⟩, true⟩
  else { s with blockValid := false }

end Descrambler

/-- A descrambler behind a scrambler. -/
structure Line where
  scrambler : Scrambler
  descrambler : Descrambler
  deriving DecidableEq, Repr

/-- A clock cycle of both. -/
def Line.step (s : Line) (i : ScramblerIn) : Line :=
  ⟨s.scrambler.edge i, s.descrambler.edge s.scrambler.blockValidD2 s.scrambler.pcsBlockD2⟩

/-- The block that enters the scrambler. -/
def ScramblerIn.entering (i : ScramblerIn) : Option Block :=
  if i.blockValid && !i.rst then some i.pcsBlock else none

/-- The block that leaves the descrambler. -/
def Line.leaving (s : Line) : Option Block :=
  if s.descrambler.blockValid then some s.descrambler.pcsBlockD1 else none

/-! ## The bit-serial form -/

/-- The bits 39 and 58 places before. -/
def feedback (h : Nat → Bool) : Bool := h 38 ^^ h 57

theorem feedback_looksBack : LooksBack feedback 58 := by
  intro h h' hagree
  rw [feedback, feedback, hagree 38 (by omega), hagree 57 (by omega)]

/-- The bits before a block, when `p` is the payload of the block before. -/
def before (p : BitVec 64) (k : Nat) : Bool := p.getLsbD (63 - k)

theorem getLsbD_y (s : Scrambler) {i : Nat} (hi : i < 64) : s.y.getLsbD i = s.yBit i := by
  rw [Scrambler.y, getLsbD_vectorOf _ hi]

/-- **The three sections are the serial scrambler.** -/
theorem Scrambler.scrambles (s : Scrambler) :
    Scrambles feedback (before s.pcsBlockD2.p) s.pcsBlockD1.p.getLsbD s.y.getLsbD 64 := by
  intro i hi
  rw [getLsbD_y s hi, yBit, feedback]
  split_ifs with hA hB
  · rw [after_of_le _ _ hA, after_of_le _ _ (by omega)]
    rfl
  · rw [after_of_lt _ _ (by omega), after_of_le _ _ hB, show i - 1 - 38 = i - 39 by omega,
      getLsbD_y s (by omega)]
    rfl
  · rw [after_of_lt _ _ (by omega), after_of_lt _ _ (by omega), show i - 1 - 38 = i - 39 by omega,
      show i - 1 - 57 = i - 58 by omega, getLsbD_y s (by omega), getLsbD_y s (by omega)]

/-- The register of the descrambler holds the bits received. -/
theorem Descrambler.getLsbD_poly (s : Descrambler) (p : BitVec 64) (n : Nat) : ∀ k < 58,
    (s.poly p n).getLsbD k = after s.descrambler.getLsbD p.getLsbD n k := by
  induction n with
  | zero => exact fun k _ => rfl
  | succ n ih =>
    intro k hk
    have hstep : s.poly p (n + 1) = shiftIn (s.poly p n) (p.getLsbD n) := by
      rw [poly, List.range_succ, List.foldl_append]
      rfl
    rw [hstep]
    cases k with
    | zero => rw [getLsbD_shiftIn_zero, after_succ_zero]
    | succ k => rw [getLsbD_shiftIn_succ _ _ (by omega), ih k (by omega), after_succ_succ]

/-- **The loop is the serial descrambler.** -/
theorem Descrambler.descrambles (s : Descrambler) (p : BitVec 64) :
    Descrambles feedback s.descrambler.getLsbD p.getLsbD (s.tempdata p).getLsbD 64 := by
  intro i hi
  rw [tempdata, getLsbD_vectorOf _ hi, tempBit, s.getLsbD_poly p i 38 (by omega),
    s.getLsbD_poly p i 57 (by omega), Bool.xor_assoc]
  rfl

/-! ## A cycle -/

theorem Scrambler.edge_stalled {s : Scrambler} (h : s.blockValidD1 = false) (i : ScramblerIn) :
    (s.edge i).pcsBlockD2 = s.pcsBlockD2 := by
  rw [edge, h]
  rfl

theorem Scrambler.edge_valid {s : Scrambler} (h : s.blockValidD1 = true) (i : ScramblerIn) :
    (s.edge i).pcsBlockD2 = ⟨s.pcsBlockD1.h, s.y⟩ := by
  rw [edge, h]
  rfl

/-- The register of the descrambler agrees with the bits before a block. -/
def Descrambler.Agrees (s : Descrambler) (p : BitVec 64) : Prop :=
  ∀ k < 58, before p k = s.descrambler.getLsbD k

/-- A register that agrees gives the payload back. -/
theorem tempdata_y {s : Scrambler} {d : Descrambler} (h : d.Agrees s.pcsBlockD2.p) :
    d.tempdata s.y = s.pcsBlockD1.p := by
  apply BitVec.eq_of_getLsbD_eq
  exact (d.descrambles s.y).restores s.scrambles feedback_looksBack h

/-- After a block the register agrees, whatever it held before. -/
theorem agrees_poly (d : Descrambler) (b : Block) : (d.edge true b).Agrees b.p := by
  intro k hk
  have hpoly : (d.edge true b).descrambler = d.poly b.p 64 := rfl
  rw [hpoly, d.getLsbD_poly b.p 64 k hk, after_of_lt _ _ (by omega), before]

variable (start : Line) (input : Nat → ScramblerIn)

/-- The line in a cycle. -/
def lineAt (t : Nat) : Line := atCycle Line.step start input t

theorem scrambler_succ (t : Nat) : (lineAt start input (t + 1)).scrambler
    = (lineAt start input t).scrambler.edge (input t) := rfl

theorem descrambler_succ (t : Nat) : (lineAt start input (t + 1)).descrambler
    = (lineAt start input t).descrambler.edge (lineAt start input t).scrambler.blockValidD2
      (lineAt start input t).scrambler.pcsBlockD2 := rfl

/-- In the cycle after a valid block the register of the descrambler agrees with it. -/
theorem agrees_of_valid {t : Nat} (h : (lineAt start input t).scrambler.blockValidD2 = true) :
    (lineAt start input (t + 1)).descrambler.Agrees
      (lineAt start input t).scrambler.pcsBlockD2.p := by
  rw [descrambler_succ, h]
  exact agrees_poly _ _

/-- While the scrambler stalls, the register goes on agreeing. -/
theorem agrees_of_stalled {t : Nat}
    (h : (lineAt start input (t + 1)).scrambler.blockValidD2 = false)
    (hagree : (lineAt start input (t + 1)).descrambler.Agrees
      (lineAt start input t).scrambler.pcsBlockD2.p) :
    (lineAt start input (t + 2)).descrambler.Agrees
      (lineAt start input (t + 1)).scrambler.pcsBlockD2.p := by
  have hd1 : (lineAt start input t).scrambler.blockValidD1 = false := h
  rw [descrambler_succ, h, scrambler_succ, Scrambler.edge_stalled hd1]
  exact hagree

/-- Once a block has come through, the register agrees for ever. -/
theorem agrees_of_le {t : Nat} (h : (lineAt start input t).scrambler.blockValidD2 = true) (t' : Nat)
    (ht : t ≤ t') : (lineAt start input (t' + 1)).descrambler.Agrees
      (lineAt start input t').scrambler.pcsBlockD2.p := by
  induction t', ht using Nat.le_induction with
  | base => exact agrees_of_valid start input h
  | succ t' ht ih =>
    cases hvalid : (lineAt start input (t' + 1)).scrambler.blockValidD2 with
    | true => exact agrees_of_valid start input hvalid
    | false => exact agrees_of_stalled start input hvalid ih

/-! ## From block to block -/

theorem entering_isSome (i : ScramblerIn) (s : Scrambler) :
    i.entering.isSome = (s.edge i).blockValidD1 := by
  unfold ScramblerIn.entering Scrambler.edge
  cases i.rst <;> cases i.blockValid <;> rfl

/-- Nothing leaves three cycles after nothing has entered. -/
theorem leaving_none {t : Nat} (h : (input t).entering = none) :
    (lineAt start input (t + 3)).leaving = none := by
  have hd1 : (lineAt start input (t + 1)).scrambler.blockValidD1 = false := by
    rw [scrambler_succ, ← entering_isSome, h]
    rfl
  have hd2 : (lineAt start input (t + 2)).scrambler.blockValidD2 = false := hd1
  rw [Line.leaving, descrambler_succ, hd2]
  rfl

/-- A block leaves three cycles after it has entered, its payload read with the register of then. -/
theorem leaving_some {t : Nat} {b : Block} (h : (input t).entering = some b) :
    (lineAt start input (t + 3)).leaving =
      some ⟨b.h, (lineAt start input (t + 2)).descrambler.tempdata
        (lineAt start input (t + 1)).scrambler.y⟩ ∧
    (lineAt start input (t + 1)).scrambler.pcsBlockD1 = b ∧
    (lineAt start input (t + 2)).scrambler.blockValidD2 = true := by
  have hb : (lineAt start input (t + 1)).scrambler.pcsBlockD1 = b := by
    unfold ScramblerIn.entering at h
    split at h
    · exact Option.some.inj h
    · cases h
  have hd1 : (lineAt start input (t + 1)).scrambler.blockValidD1 = true := by
    rw [scrambler_succ, ← entering_isSome, h]
    rfl
  have hd2 : (lineAt start input (t + 2)).scrambler.blockValidD2 = true := hd1
  refine ⟨?_, hb, hd2⟩
  rw [Line.leaving, descrambler_succ, hd2, scrambler_succ start input (t + 1),
    Scrambler.edge_valid hd1, hb]
  rfl

/-- A block behind another one leaves as it has entered. -/
theorem leaving_of_earlier {j t : Nat} {a b : Block} (hj : (input j).entering = some a)
    (hjt : j < t) (h : (input t).entering = some b) :
    (lineAt start input (t + 3)).leaving = some b := by
  obtain ⟨-, -, hearlier⟩ := leaving_some start input hj
  obtain ⟨hleaves, hb, -⟩ := leaving_some start input h
  have hagree := agrees_of_le start input hearlier (t + 1) (by omega)
  rw [hleaves, tempdata_y hagree, hb]

/-- The blocks that enter before cycle `n`. -/
def enteredBefore (n : Nat) : List Block := (List.range n).filterMap fun t => (input t).entering

/-- The blocks that leave before cycle `n`. -/
def leftBefore (n : Nat) : List Block :=
  (List.range n).filterMap fun t => (lineAt start input t).leaving

/-- The blocks that leave from the third cycle on, before cycle `n + 3`. -/
def leftBehind (n : Nat) : List Block :=
  (List.range n).filterMap fun t => (lineAt start input (t + 3)).leaving

/-- How many blocks the registers hold. -/
def Line.inFlight (s : Line) : Nat :=
  s.scrambler.blockValidD1.toNat + s.scrambler.blockValidD2.toNat + s.descrambler.blockValid.toNat

theorem enteredBefore_succ (n : Nat) :
    enteredBefore input (n + 1) = enteredBefore input n ++ (input n).entering.toList := by
  rw [enteredBefore, List.range_succ, List.filterMap_append]
  cases h : (input n).entering <;> simp [enteredBefore, h]

theorem leftBehind_succ (n : Nat) : leftBehind start input (n + 1)
    = leftBehind start input n ++ (lineAt start input (n + 3)).leaving.toList := by
  rw [leftBehind, List.range_succ, List.filterMap_append]
  cases h : (lineAt start input (n + 3)).leaving <;> simp [leftBehind, h]

/-- In the first three cycles the blocks leave that were in the registers. -/
theorem length_leftBefore_three : (leftBefore start input 3).length = start.inFlight := by
  have hd : ∀ (d : Descrambler) (v : Bool) (b : Block), (d.edge v b).blockValid = v := by
    intro d v b
    cases v <;> rfl
  have hleaving : ∀ t, (lineAt start input t).leaving.toList.length
      = (lineAt start input t).descrambler.blockValid.toNat := by
    intro t
    unfold Line.leaving
    cases (lineAt start input t).descrambler.blockValid <;> rfl
  have hlist : leftBefore start input 3 = (lineAt start input 0).leaving.toList
      ++ ((lineAt start input 1).leaving.toList ++ (lineAt start input 2).leaving.toList) := by
    rw [leftBefore, show List.range 3 = [0, 1, 2] from rfl]
    cases h0 : (lineAt start input 0).leaving <;> cases h1 : (lineAt start input 1).leaving <;>
      cases h2 : (lineAt start input 2).leaving <;> simp [h0, h1, h2]
  rw [hlist, List.length_append, List.length_append, hleaving, hleaving, hleaving,
    descrambler_succ start input 1, descrambler_succ start input 0, hd, hd, Line.inFlight]
  have hd2 : (lineAt start input 1).scrambler.blockValidD2 = start.scrambler.blockValidD1 := rfl
  have hstart : lineAt start input 0 = start := rfl
  rw [hd2, hstart]
  omega

theorem leftBefore_add_three (n : Nat) :
    leftBefore start input (n + 3) = leftBefore start input 3 ++ leftBehind start input n := by
  rw [Nat.add_comm, leftBefore, List.range_add, List.filterMap_append, List.filterMap_map]
  simp only [leftBefore, leftBehind, Function.comp_def, Nat.add_comm 3]

theorem exists_entered {n : Nat} (h : enteredBefore input n ≠ []) :
    ∃ j < n, ∃ a, (input j).entering = some a := by
  obtain ⟨a, ha⟩ := List.exists_mem_of_ne_nil _ h
  obtain ⟨j, hj, hentering⟩ := List.mem_filterMap.mp ha
  exact ⟨j, List.mem_range.mp hj, a, hentering⟩

/-- What leaves behind the first three cycles, but for the payload of the first block. -/
theorem leftBehind_eq (n : Nat) :
    (leftBehind start input n).map Block.h = (enteredBefore input n).map Block.h ∧
      (leftBehind start input n).tail = (enteredBefore input n).tail := by
  induction n with
  | zero => exact ⟨rfl, rfl⟩
  | succ n ih =>
    obtain ⟨hheaders, htail⟩ := ih
    rw [enteredBefore_succ, leftBehind_succ]
    cases hentering : (input n).entering with
    | none =>
      rw [leaving_none start input hentering]
      simp [hheaders, htail]
    | some b =>
      obtain ⟨hleaves, -, -⟩ := leaving_some start input hentering
      have hlength := congrArg List.length hheaders
      rw [List.length_map, List.length_map] at hlength
      rw [List.map_append, List.map_append, hheaders]
      refine ⟨by rw [hleaves]; rfl, ?_⟩
      by_cases hnil : enteredBefore input n = []
      · have hleft : leftBehind start input n = [] := by
          rw [hnil, List.length_nil] at hlength
          exact List.eq_nil_of_length_eq_zero hlength
        rw [hnil, hleft, hleaves]
        rfl
      · have hleft : leftBehind start input n ≠ [] := by
          intro h
          rw [h, List.length_nil] at hlength
          exact hnil (List.eq_nil_of_length_eq_zero hlength.symm)
        obtain ⟨j, hj, a, ha⟩ := exists_entered input hnil
        rw [leaving_of_earlier start input ha hj hentering, List.tail_append_of_ne_nil hnil,
          List.tail_append_of_ne_nil hleft, htail]

/--
**The blocks that leave are those that have entered, but for the payload of the first one.**

A block leaves three cycles after it has entered, so before it only those leave that the registers
held at the start.
-/
theorem line_descrambles (n : Nat) : ∃ old new : List Block,
    leftBefore start input (n + 3) = old ++ new ∧ old.length = start.inFlight ∧
      new.map Block.h = (enteredBefore input n).map Block.h ∧
      new.tail = (enteredBefore input n).tail :=
  ⟨leftBefore start input 3, leftBehind start input n, leftBefore_add_three start input n,
    length_leftBefore_three start input, leftBehind_eq start input n⟩

end MlibDevel.FortyGbe
