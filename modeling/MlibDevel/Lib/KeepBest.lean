import Mathlib.Data.List.Induction
import Mathlib.Order.Lattice

/-!
# Keeping the best

Candidates are gone through one by one, and the best one so far is kept with what it costs.  One
starts from something that need not be a candidate; it is left for the first candidate that costs
less.  Of equal candidates the first is kept.
-/

namespace MlibDevel.Lib

variable {α β : Type} [LinearOrder β]

/-- What is kept after a candidate. -/
def keepBest (cost : α → β) (best : α × β) (x : α) : α × β :=
  if cost x < best.2 then (x, cost x) else best

/-- What is kept after the candidates `xs`. -/
structure KeptBest (cost : α → β) (start : α × β) (xs : List α) (best : α × β) : Prop where
  le_start : best.2 ≤ start.2
  le : ∀ x ∈ xs, best.2 ≤ cost x
  eq_or : best = start ∨ best.1 ∈ xs ∧ best.2 = cost best.1 ∧ best.2 < start.2

variable {cost : α → β} {start best : α × β} {xs : List α}

theorem KeptBest.nil : KeptBest cost start [] start where
  le_start := le_refl _
  le := fun _ hx => absurd hx List.not_mem_nil
  eq_or := .inl rfl

theorem KeptBest.concat (h : KeptBest cost start xs best) (x : α) :
    KeptBest cost start (xs ++ [x]) (keepBest cost best x) := by
  have hold : ∀ y ∈ xs, y ∈ xs ++ [x] := fun y hy => List.mem_append_left _ hy
  have hmem : ∀ y, y ∈ xs ++ [x] ↔ y ∈ xs ∨ y = x := by simp
  unfold keepBest
  split
  · next hlt =>
    have hstart : cost x < start.2 := lt_of_lt_of_le hlt h.le_start
    refine ⟨le_of_lt hstart, ?_, .inr ⟨by simp, rfl, hstart⟩⟩
    intro y hy
    rcases (hmem y).mp hy with hxs | rfl
    · exact le_of_lt (lt_of_lt_of_le hlt (h.le y hxs))
    · exact le_refl _
  · next hge =>
    refine ⟨h.le_start, ?_, h.eq_or.imp_right fun ⟨hin, hcost⟩ => ⟨hold _ hin, hcost⟩⟩
    intro y hy
    rcases (hmem y).mp hy with hxs | rfl
    · exact h.le y hxs
    · exact not_lt.mp hge

theorem keptBest_foldl (cost : α → β) (start : α × β) (xs : List α) :
    KeptBest cost start xs (xs.foldl (keepBest cost) start) := by
  induction xs using List.reverseRecOn with
  | nil => exact KeptBest.nil
  | append_singleton xs x ih =>
    rw [List.foldl_append]
    exact ih.concat x

/-- **A candidate is kept if one costs less than the start.** -/
theorem KeptBest.mem_iff (h : KeptBest cost start xs best) :
    best.1 ∈ xs ∧ best.2 = cost best.1 ∧ best.2 < start.2 ↔ ∃ x ∈ xs, cost x < start.2 := by
  constructor
  · rintro ⟨hin, hcost, hlt⟩
    exact ⟨best.1, hin, hcost ▸ hlt⟩
  · rintro ⟨x, hx, hlt⟩
    rcases h.eq_or with rfl | hfound
    · exact absurd (h.le x hx) (not_le.mpr hlt)
    · exact hfound

end MlibDevel.Lib
