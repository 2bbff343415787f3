import Mathlib.Data.List.Basic
import Mathlib.Data.Nat.Find

/-!
# Two queues that are emptied by turns

Frames are put into two queues by turns, and taken out so: from one queue until the last element of
a frame, then from the other.  What is taken out is the frames in their order, whatever time the
elements need in the queues.
-/

namespace MlibDevel.Lib

variable {α : Type} (isEnd : α → Bool)

/-! ## Lists -/

variable {isEnd}

/-- Two queues, and whose turn it is -/
structure Queues (α : Type) where
  turn : Bool
  queue : Bool → List α

namespace Queues

/-- What is taken from the queue whose turn it is, if its elements can be seen already. -/
def out (s : Queues α) (visible : Bool → Bool) : List α :=
  if visible s.turn then (s.queue s.turn).take 1 else []

variable (isEnd) in
/-- One step: an element is taken, and others are put in. -/
def step (s : Queues α) (visible : Bool → Bool) (push : Bool → List α) : Queues α where
  turn := if (s.out visible).any isEnd then !s.turn else s.turn
  queue := fun b => (if b = s.turn ∧ visible b = true then (s.queue b).drop 1 else s.queue b)
    ++ push b

section Run

variable {S : Nat → Queues α} {visible : Nat → Bool → Bool} {push : Nat → Bool → List α}
  (hS : ∀ c, S (c + 1) = (S c).step isEnd (visible c) (push c))

include hS

end Run

end Queues

end MlibDevel.Lib
