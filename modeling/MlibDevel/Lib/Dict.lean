import Mathlib.Data.List.Nodup
import Mathlib.Data.List.Perm.Basic
import Mathlib.Order.Lattice

/-!
# Dictionaries that remember their order

A Python dictionary as the list of its items.  A new key goes to the end, a key that is there keeps
its place.
-/

namespace MlibDevel.Lib.Dict

variable {K V : Type}

/-- `d.keys()` -/
def keys (d : List (K × V)) : List K := d.map Prod.fst

theorem mem_keys_of_mem {e : K × V} {d : List (K × V)} (h : e ∈ d) : e.1 ∈ keys d :=
  List.mem_map_of_mem h

section

variable [DecidableEq K]

/-- `d.get(k)` -/
def get? (k : K) : List (K × V) → Option V
  | [] => none
  | e :: d => if e.1 = k then some e.2 else get? k d

/-- `d[k] = v` -/
def set (k : K) (v : V) : List (K × V) → List (K × V)
  | [] => [(k, v)]
  | e :: d => if e.1 = k then (k, v) :: d else e :: set k v d

/-- `d.pop(k)`: the value and the dictionary without it. -/
def pop? (k : K) : List (K × V) → Option (V × List (K × V))
  | [] => none
  | e :: d => if e.1 = k then some (e.2, d) else (pop? k d).map fun r => (r.1, e :: r.2)

theorem get?_eq_none {k : K} : ∀ {d : List (K × V)}, k ∉ keys d → get? k d = none
  | [], _ => rfl
  | e :: d, h => by
    rw [keys, List.map_cons, List.mem_cons, not_or] at h
    rw [get?, if_neg (fun he => h.1 he.symm)]
    exact get?_eq_none h.2

theorem get?_eq_some {k : K} {v : V} : ∀ {d : List (K × V)}, (keys d).Nodup → (k, v) ∈ d →
    get? k d = some v
  | e :: d, hd, h => by
    rw [keys, List.map_cons, List.nodup_cons] at hd
    rcases List.mem_cons.mp h with rfl | h
    · rw [get?, if_pos rfl]
    · rw [get?, if_neg]
      · exact get?_eq_some hd.2 h
      · intro he
        rw [he] at hd
        exact hd.1 (mem_keys_of_mem h)

theorem set_of_not_mem {k : K} {v : V} : ∀ {d : List (K × V)}, k ∉ keys d →
    set k v d = d ++ [(k, v)]
  | [], _ => rfl
  | e :: d, h => by
    rw [keys, List.map_cons, List.mem_cons, not_or] at h
    rw [set, if_neg (fun he => h.1 he.symm), set_of_not_mem h.2]
    rfl

theorem keys_set_of_mem {k : K} {v : V} : ∀ {d : List (K × V)}, k ∈ keys d →
    keys (set k v d) = keys d
  | e :: d, h => by
    rw [set]
    split
    · next he =>
      rw [keys, keys, List.map_cons, List.map_cons, he]
    · next hne =>
      have hmem : k ∈ keys d := (List.mem_cons.mp h).resolve_left fun he => hne he.symm
      have ih := keys_set_of_mem (v := v) hmem
      rw [keys, List.map_cons, ← keys, ih]
      rfl

theorem nodup_set {k : K} {v : V} {d : List (K × V)} (hd : (keys d).Nodup) :
    (keys (set k v d)).Nodup := by
  by_cases hk : k ∈ keys d
  · rw [keys_set_of_mem hk]
    exact hd
  · rw [set_of_not_mem hk, keys, List.map_append]
    exact List.Nodup.append hd (List.nodup_singleton k) fun x hx hx' => by
      rw [List.map_cons, List.map_nil, List.mem_singleton] at hx'
      rw [hx'] at hx
      exact hk hx

/-- The items after an assignment. -/
theorem mem_set {k : K} {v : V} : ∀ {d : List (K × V)}, (keys d).Nodup → ∀ {e : K × V},
    e ∈ set k v d ↔ e = (k, v) ∨ e ∈ d ∧ e.1 ≠ k
  | [], _, e => by simp [set]
  | e' :: d, hd, e => by
    rw [keys, List.map_cons, List.nodup_cons] at hd
    rw [set]
    split
    · next he =>
      rw [he] at hd
      have hne : e ∈ d → e.1 ≠ k := by
        intro hmem heq
        rw [← heq] at hd
        exact hd.1 (mem_keys_of_mem hmem)
      rw [List.mem_cons, List.mem_cons]
      constructor
      · rintro (h | h)
        · exact Or.inl h
        · exact Or.inr ⟨Or.inr h, hne h⟩
      · rintro (h | ⟨rfl | h, hk⟩)
        · exact Or.inl h
        · exact absurd he hk
        · exact Or.inr h
    · next hne =>
      rw [List.mem_cons, mem_set hd.2, List.mem_cons]
      constructor
      · rintro (rfl | h | ⟨h, hk⟩)
        · exact Or.inr ⟨Or.inl rfl, hne⟩
        · exact Or.inl h
        · exact Or.inr ⟨Or.inr h, hk⟩
      · rintro (h | ⟨h | h, hk⟩)
        · exact Or.inr (Or.inl h)
        · exact Or.inl h
        · exact Or.inr (Or.inr ⟨h, hk⟩)

/-- A key that is there can be taken out. -/
theorem pop?_of_mem {k : K} {v : V} : ∀ {d : List (K × V)}, (keys d).Nodup → (k, v) ∈ d →
    ∃ d', pop? k d = some (v, d') ∧ d.Perm ((k, v) :: d')
  | e :: d, hd, h => by
    rw [keys, List.map_cons, List.nodup_cons] at hd
    rcases List.mem_cons.mp h with rfl | h
    · exact ⟨d, by rw [pop?, if_pos rfl], List.Perm.refl _⟩
    · obtain ⟨d', hpop, hperm⟩ := pop?_of_mem hd.2 h
      refine ⟨e :: d', ?_, (hperm.cons e).trans (List.Perm.swap _ _ _)⟩
      rw [pop?, if_neg, hpop]
      · rfl
      · intro he
        rw [he] at hd
        exact hd.1 (mem_keys_of_mem h)

end

/-! ## The largest value -/

section

variable {S : Type} [LinearOrder S] (size : V → S)

/-- A loop that keeps the largest size seen so far and the key of the first item that has it. -/
def scan : S × Option K → List (K × V) → S × Option K
  | r, [] => r
  | r, e :: d => scan (if r.1 < size e.2 then (size e.2, some e.1) else r) d

/-- Nothing is larger than what was there before, or an item is the largest. -/
theorem scan_cases : ∀ (d : List (K × V)) (r : S × Option K),
    (scan size r d = r ∧ ∀ e ∈ d, size e.2 ≤ r.1) ∨
      ∃ e ∈ d, scan size r d = (size e.2, some e.1) ∧ r.1 < size e.2 ∧
        ∀ e' ∈ d, size e'.2 ≤ size e.2
  | [], r => Or.inl ⟨rfl, by simp⟩
  | e :: d, r => by
    rw [scan]
    by_cases hlt : r.1 < size e.2
    · rw [if_pos hlt]
      right
      rcases scan_cases d (size e.2, some e.1) with ⟨heq, hle⟩ | ⟨e', he', heq, hlt', hle⟩
      · exact ⟨e, List.mem_cons_self, heq, hlt, List.forall_mem_cons.mpr ⟨le_rfl, hle⟩⟩
      · exact ⟨e', List.mem_cons_of_mem _ he', heq, hlt.trans hlt',
          List.forall_mem_cons.mpr ⟨hlt'.le, hle⟩⟩
    · rw [if_neg hlt]
      rcases scan_cases d r with ⟨heq, hle⟩ | ⟨e', he', heq, hlt', hle⟩
      · exact Or.inl ⟨heq, List.forall_mem_cons.mpr ⟨not_lt.mp hlt, hle⟩⟩
      · exact Or.inr ⟨e', List.mem_cons_of_mem _ he', heq, hlt',
          List.forall_mem_cons.mpr ⟨(not_lt.mp hlt).trans hlt'.le, hle⟩⟩

/-- If an item is larger than the bound, the key found is that of a largest item. -/
theorem scan_of_lt {r : S × Option K} {d : List (K × V)} {e : K × V} (he : e ∈ d)
    (hlt : r.1 < size e.2) :
    ∃ e' ∈ d, (scan size r d).2 = some e'.1 ∧ ∀ e'' ∈ d, size e''.2 ≤ size e'.2 := by
  rcases scan_cases size d r with ⟨-, hle⟩ | ⟨e', he', heq, -, hle⟩
  · exact absurd (hle e he) (not_le.mpr hlt)
  · exact ⟨e', he', by rw [heq], hle⟩

end

end MlibDevel.Lib.Dict
