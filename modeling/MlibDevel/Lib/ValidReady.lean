/-!
# Sources that keep the valid/ready rule

A source offers a value and holds it, unchanged, until the sink is ready.  The value held over from
earlier cycles is the state of the source; a source that holds none may offer a new one.
-/

namespace MlibDevel.Lib

variable {α : Type}

/-- What a source offers that holds `held` and wants to send `new`. -/
def offer (held new : Option α) : Option α :=
  match held with
  | some x => some x
  | none => new

/-- What the sink takes. -/
def taken (offered : Option α) (ready : Bool) : List α := if ready then offered.toList else []

/-- What the source holds after that. -/
def keep (offered : Option α) (ready : Bool) : Option α := if ready then none else offered

@[simp] theorem offer_some (x : α) (new : Option α) : offer (some x) new = some x := rfl

@[simp] theorem offer_none (new : Option α) : offer none new = new := rfl

@[simp] theorem taken_false (offered : Option α) : taken offered false = [] := rfl

@[simp] theorem taken_true (offered : Option α) : taken offered true = offered.toList := rfl

@[simp] theorem taken_none (ready : Bool) : taken (none : Option α) ready = [] := by
  cases ready <;> rfl

@[simp] theorem keep_false (offered : Option α) : keep offered false = offered := rfl

@[simp] theorem keep_true (offered : Option α) : keep offered true = none := rfl

end MlibDevel.Lib
