import Mathlib.Data.List.AList
import MlibDevel.Lib.Calls

/-!
# Write-once attributes (`verilog.py`, `ImmutableWithComments`)

Ports and parameters are Python objects whose attributes can be set once: setting one again is an
error unless the value is equal.  An attribute that holds `None` counts as not set.

A Python object is the association list of its attributes.
-/

namespace MlibDevel.Verilog

/-- The attribute values that occur. -/
inductive PyVal
  | none
  | bool (b : Bool)
  | int (n : Int)
  | str (s : String)
  deriving DecidableEq, Repr

/-- The number a Python number is: `True` and `False` are 1 and 0. -/
def PyVal.toInt? : PyVal → Option Int
  | .bool b => some (if b then 1 else 0)
  | .int n => some n
  | _ => Option.none

/-- Python's `==` -/
def PyVal.pyEq (x y : PyVal) : Bool :=
  match x.toInt?, y.toInt? with
  | some m, some n => m = n
  | _, _ => x = y

/-- The exceptions that can end the calls modelled here. -/
inductive PyError
  /-- `Tried to change attribute %s of %s from %s to %s` -/
  | immutable (attr : String) (name : PyVal) (old new : PyVal)
  | typeError
  | indexError
  | zeroDivisionError
  deriving DecidableEq, Repr

/-- The attributes of an object. -/
abbrev Attrs := AList fun _ : String => PyVal

/-- `self.name` in the message of `__setattr__`. -/
def Attrs.name (a : Attrs) : PyVal := (a.lookup "name").getD .none

/--
`ImmutableWithComments.__setattr__`.  Setting a comment that is there passes one argument too many
to `object.__setattr__`, a `TypeError`.
-/
def setattr (a : Attrs) (x : String) (y : PyVal) : Except PyError Attrs :=
  match a.lookup x with
  | none => .ok (a.insert x y)
  | some .none => .ok (a.insert x y)
  | some old =>
    if x = "comment" then .error .typeError
    else if old.pyEq y then .ok a
    else .error (.immutable x (Attrs.name a) old y)

/-- `s.rstrip(' ')` -/
def rstrip (s : String) : String :=
  String.ofList (s.toList.reverse.dropWhile (· = ' ')).reverse

/-- `Parameter.update_attrs` -/
def updateParameter (a : Attrs) (name : String) (value comment : PyVal) : Except PyError Attrs := do
  let a ← setattr a "name" (.str (rstrip name))
  let a ← setattr a "value" value
  let a ← match comment with
    | .str c => setattr a "comment" (.str (rstrip c))
    | _ => pure a
  setattr a "comment" comment

/-- `Port.update_attrs` -/
def updatePort (a : Attrs) (name : String) (signal : PyVal) (parentPort parentSig : Bool)
    (width : Int) : Except PyError Attrs := do
  let a ← setattr a "name" (.str (rstrip name))
  let a ← setattr a "parent_sig" (.bool (parentSig && !parentPort))
  let a ← setattr a "parent_port" (.bool parentPort)
  let a ← setattr a "width" (.int width)
  setattr a "signal" signal

/-! ## What can happen to an attribute -/

/-- A successful assignment leaves a value equal to the new one. -/
theorem setattr_lookup_self {a a' : Attrs} {x : String} {y : PyVal} (h : setattr a x y = .ok a') :
    ∃ v, a'.lookup x = some v ∧ (v = y ∨ v.pyEq y = true) := by
  unfold setattr at h
  split at h
  · cases h
    exact ⟨y, AList.lookup_insert a, Or.inl rfl⟩
  · cases h
    exact ⟨y, AList.lookup_insert a, Or.inl rfl⟩
  · next old _ hold =>
    split at h
    · cases h
    · split at h
      · next heq =>
        cases h
        exact ⟨old, hold, Or.inr heq⟩
      · cases h

/-- An attribute that is set stays as it is. -/
theorem setattr_lookup {a a' : Attrs} {x z : String} {y v : PyVal} (h : setattr a x y = .ok a')
    (hz : a.lookup z = some v) (hv : v ≠ .none) : a'.lookup z = some v := by
  unfold setattr at h
  split at h
  · next hx =>
    cases h
    rw [AList.lookup_insert_ne (fun he => by rw [he, hx] at hz; cases hz)]
    exact hz
  · next hx =>
    cases h
    rw [AList.lookup_insert_ne fun he => by
      rw [he, hx] at hz
      exact hv (Option.some.inj hz).symm]
    exact hz
  · split at h
    · cases h
    · split at h
      · cases h
        exact hz
      · cases h

end MlibDevel.Verilog
