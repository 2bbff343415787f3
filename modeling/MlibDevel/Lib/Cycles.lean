import Mathlib.Data.Nat.Init

/-!
# Runs of clocked logic

A clocked system takes one step in each cycle of its clock, for as long as the clock runs.  A run is
the state in each cycle, determined by the state it starts from and its input in each cycle.
-/

namespace MlibDevel.Lib

variable {σ ι : Type}

/-- The state in cycle `t`. -/
def atCycle (step : σ → ι → σ) (start : σ) (input : Nat → ι) : Nat → σ
  | 0 => start
  | t + 1 => step (atCycle step start input t) (input t)

/-- Clocked logic as a whole: registers, what they become in a cycle, and the outputs in it. -/
structure Circuit (ι ο : Type) where
  State : Type
  step : State → ι → State
  out : State → ι → ο

/-- The output in cycle `t`. -/
def Circuit.output {ο : Type} (c : Circuit ι ο) (start : c.State) (input : Nat → ι) (t : Nat) : ο :=
  c.out (atCycle c.step start input t) (input t)

section Invariants

variable {step : σ → ι → σ} {start : σ} {input : Nat → ι} {Inv : σ → Prop}

/-- What is kept by the steps that meet a condition holds in every cycle of a run of such steps. -/
theorem atCycle_invariant_of {ok : σ → ι → Prop} (hstart : Inv start)
    (hstep : ∀ s i, Inv s → ok s i → Inv (step s i))
    (hok : ∀ t, ok (atCycle step start input t) (input t)) (t : Nat) :
    Inv (atCycle step start input t) := by
  induction t with
  | zero => exact hstart
  | succ t ih => exact hstep _ _ ih (hok t)

variable (step start) in
/-- What the input of a run keeps, once it no longer changes, stays for ever. -/
theorem atCycle_settled {ρ : Type} {p : σ → ρ} {v : ρ} {i : ι} {t : Nat}
    (hinput : ∀ t', t ≤ t' → input t' = i) (hv : p (atCycle step start input t) = v)
    (hkeep : ∀ s, p s = v → p (step s i) = v) (t' : Nat) (ht : t ≤ t') :
    p (atCycle step start input t') = v := by
  induction t', ht using Nat.le_induction with
  | base => exact hv
  | succ t' ht ih =>
    show p (step (atCycle step start input t') (input t')) = v
    rw [hinput t' ht]
    exact hkeep _ ih

end Invariants

section Outputs

variable {ο : Type} (step : σ → ι → σ) (out : σ → ι → List ο)

/-- What a run puts out, in order. -/
def outputs : σ → List ι → List ο
  | _, [] => []
  | s, i :: is => out s i ++ outputs (step s i) is

theorem outputs_append : ∀ (s : σ) (is js : List ι),
    outputs step out s (is ++ js) = outputs step out s is ++ outputs step out (is.foldl step s) js
  | _, [], _ => rfl
  | s, i :: is, js => by
    have ih := outputs_append (step s i) is js
    rw [List.cons_append, outputs, outputs, ih, List.append_assoc, List.foldl_cons]

/-- A run over a list of inputs, cycle by cycle. -/
theorem foldl_eq_atCycle : ∀ (is : List ι) (s : σ) (input : Nat → ι),
    (∀ n (hn : n < is.length), input n = is[n]) → ∀ n, n ≤ is.length →
      (is.take n).foldl step s = atCycle step s input n
  | _, _, _, _, 0, _ => rfl
  | is, s, input, h, n + 1, hn => by
    have ih := foldl_eq_atCycle is s input h n (Nat.le_of_succ_le hn)
    rw [List.take_succ_eq_append_getElem (by omega), List.foldl_append, ih, ← h n (by omega)]
    rfl

/-- What a run puts out in the cycles before `n`. -/
theorem outputs_take_eq (is : List ι) (s : σ) (input : Nat → ι)
    (h : ∀ n (hn : n < is.length), input n = is[n]) : ∀ n, n ≤ is.length →
      outputs step out s (is.take n)
        = (List.range n).flatMap fun t => out (atCycle step s input t) (input t)
  | 0, _ => rfl
  | n + 1, hn => by
    have ih := outputs_take_eq is s input h n (Nat.le_of_succ_le hn)
    rw [List.take_succ_eq_append_getElem (by omega), outputs_append, ih, List.range_succ,
      List.flatMap_append, foldl_eq_atCycle step is s input h n (by omega), ← h n (by omega)]
    simp [outputs]

/-- All that a run puts out. -/
theorem outputs_eq (is : List ι) (s : σ) (input : Nat → ι)
    (h : ∀ n (hn : n < is.length), input n = is[n]) :
    outputs step out s is
      = (List.range is.length).flatMap fun t => out (atCycle step s input t) (input t) := by
  rw [← outputs_take_eq step out is s input h is.length (Nat.le_refl _), List.take_length]

/-- What is put out in the `m` cycles from `a` on, when nothing is put out in the others. -/
theorem flatMap_range_window {g : Nat → List ο} {a m n : Nat} (hle : a + m ≤ n)
    (hbefore : ∀ t < a, g t = []) (hbehind : ∀ t, a + m ≤ t → t < n → g t = []) :
    (List.range n).flatMap g = (List.range m).flatMap fun t => g (a + t) := by
  obtain ⟨r, rfl⟩ := Nat.exists_eq_add_of_le hle
  have hnone : ∀ (l : List Nat), (∀ t ∈ l, g t = []) → l.flatMap g = [] :=
    fun l hl => List.flatMap_eq_nil_iff.mpr hl
  rw [List.range_add, List.range_add, List.flatMap_append, List.flatMap_append,
    hnone (List.range a) fun t ht => hbefore t (List.mem_range.mp ht), List.nil_append,
    hnone (List.map _ (List.range r)), List.append_nil, List.flatMap_map]
  intro t ht
  obtain ⟨j, hj, rfl⟩ := List.mem_map.mp ht
  have hlt := List.mem_range.mp hj
  exact hbehind _ (by omega) (by omega)

end Outputs

section Waiting

variable {P Q go : Nat → Prop}

/-- Who waits until an event that never comes waits for ever. -/
theorem waits_forever (stay : ∀ t, P t → ¬go t → P (t + 1)) {t : Nat} (hP : P t)
    (hgo : ∀ t', t ≤ t' → ¬go t') (t' : Nat) (ht : t ≤ t') : P t' := by
  induction t', ht using Nat.le_induction with
  | base => exact hP
  | succ t' ht ih => exact stay t' ih (hgo t' ht)

/-- Who waits until an event that comes gets what the event brings. -/
theorem waits_until (stay : ∀ t, P t → ¬go t → P (t + 1)) (leave : ∀ t, P t → go t → Q (t + 1))
    {t : Nat} (hP : P t) (hgo : ∃ t', t ≤ t' ∧ go t') : ∃ t', t < t' ∧ Q t' := by
  obtain ⟨t', ht, hg⟩ := hgo
  obtain ⟨d, rfl⟩ := Nat.exists_eq_add_of_le ht
  clear ht
  induction d generalizing t with
  | zero => exact ⟨t + 1, by omega, leave t hP hg⟩
  | succ d ih =>
    by_cases hgt : go t
    · exact ⟨t + 1, by omega, leave t hP hgt⟩
    · rw [show t + (d + 1) = t + 1 + d by omega] at hg
      obtain ⟨u, hu, hq⟩ := ih (stay t hP hgt) hg
      exact ⟨u, by omega, hq⟩

/-- What grows less again and again is zero in the end. -/
theorem reaches_zero (μ : Nat → Nat) (hless : ∀ t, μ t ≠ 0 → ∃ t', t < t' ∧ μ t' < μ t) (t : Nat) :
    ∃ t', t ≤ t' ∧ μ t' = 0 := by
  induction hm : μ t using Nat.strongRecOn generalizing t with
  | ind m ih =>
    subst hm
    by_cases hzero : μ t = 0
    · exact ⟨t, Nat.le_refl t, hzero⟩
    · obtain ⟨u, hu, hlt⟩ := hless t hzero
      obtain ⟨t', ht', hend⟩ := ih (μ u) hlt u rfl
      exact ⟨t', by omega, hend⟩

end Waiting

end MlibDevel.Lib
