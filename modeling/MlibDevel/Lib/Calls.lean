/-!
# Calls that can raise

A sequence of calls returns if each of them does.
-/

namespace MlibDevel.Lib

variable {α β ε : Type}

theorem bind_eq_ok_iff {call : Except ε α} {next : α → Except ε β} {r : β} :
    call >>= next = .ok r ↔ ∃ v, call = .ok v ∧ next v = .ok r := by
  cases call with
  | error e => exact iff_of_false (fun h => nomatch h) fun ⟨_, h, _⟩ => nomatch h
  | ok v => exact ⟨fun h => ⟨v, rfl, h⟩, fun ⟨_, hv, h⟩ => by cases hv; exact h⟩

/-- A sequence of two calls returns only if both do. -/
theorem bind_returns {call : Except ε α} {next : α → Except ε β} {r : β}
    (h : call >>= next = .ok r) : ∃ v, call = .ok v ∧ next v = .ok r :=
  bind_eq_ok_iff.mp h

/-- A loop returns if every round does. -/
theorem forM_eq_ok_iff {l : List α} {f : α → Except ε Unit} {u : Unit} :
    forM l f = .ok u ↔ ∀ x ∈ l, f x = .ok () := by
  induction l with
  | nil => simp [pure, Except.pure]
  | cons x l ih =>
    have hunit : (∃ v, f x = .ok v) ↔ f x = .ok () := ⟨fun ⟨(), h⟩ => h, fun h => ⟨(), h⟩⟩
    simp only [List.forM_cons, List.forall_mem_cons, bind_eq_ok_iff, ih, exists_and_right, hunit]

end MlibDevel.Lib
