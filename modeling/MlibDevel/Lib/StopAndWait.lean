import Mathlib.Data.List.Basic
import Mathlib.Data.List.Pairwise

/-!
# Stop and wait

A sender sends one block after the other, each until it is acknowledged.  The two channels keep the
order of what is in them, and may lose it or deliver it several times.  Blocks and acknowledgements
have numbers modulo some `m`, and `m = 2` is enough: what looks like the next block is the next
block (`Inv.is_next`), and what looks like its acknowledgement is it (`Inv.is_acked`).

The state has the numbers themselves; what can be seen of a number is its residue.
-/

namespace MlibDevel.Lib

/-- The block that is sent, the block that is waited for, and what is in the two channels, the
oldest first -/
structure StopAndWait where
  sent : Nat
  next : Nat
  data : List Nat
  acks : List Nat

namespace StopAndWait

/-- One step.  What is delivered stays in the channel, so that it can be delivered again. -/
inductive Step (m : Nat) : StopAndWait → StopAndWait → Prop
  /-- Some of what is on the way is lost. -/
  | lose {s : StopAndWait} {data acks : List Nat} (hdata : data.Sublist s.data)
      (hacks : acks.Sublist s.acks) :
      Step m s { s with data, acks }
  /-- The block is sent again. -/
  | send {s : StopAndWait} : Step m s { s with data := s.data ++ [s.sent] }
  /-- An acknowledgement of the block is received, and the next one is sent. -/
  | acked {s : StopAndWait} {a : Nat} (ha : s.acks.head? = some a) (hnumber : a % m = s.sent % m) :
      Step m s { s with sent := s.sent + 1, data := s.data ++ [s.sent + 1] }
  /-- The block that is waited for is received. -/
  | received {s : StopAndWait} {d : Nat} (hd : s.data.head? = some d)
      (hnumber : d % m = s.next % m) :
      Step m s { s with next := s.next + 1, acks := s.acks ++ [s.next] }
  /-- The last block is acknowledged again. -/
  | again {s : StopAndWait} {a : Nat} (ha : a + 1 = s.next) : Step m s
      { s with acks := s.acks ++ [a] }

/-- The receiver has the blocks before the one that is sent, and that one or not.  In the channels
are the block that is sent and, before it, the one before. -/
structure Inv (s : StopAndWait) : Prop where
  next : s.next = s.sent ∨ s.next = s.sent + 1
  data : ∀ d ∈ s.data, d = s.sent ∨ d + 1 = s.sent
  acks : ∀ a ∈ s.acks, a = s.sent ∨ a + 1 = s.sent
  dataOrder : s.data.Pairwise (· ≤ ·)
  acksOrder : s.acks.Pairwise (· ≤ ·)
  received : s.next = s.sent + 1 → ∀ d ∈ s.data, d = s.sent
  waiting : s.next = s.sent → ∀ a ∈ s.acks, a + 1 = s.sent

variable {m : Nat} {s s' : StopAndWait}

/-- A number and the one after it can be told apart. -/
theorem mod_ne_succ (hm : 2 ≤ m) (n : Nat) : n % m ≠ (n + 1) % m := by
  intro heq
  have hone := Nat.sub_mod_eq_zero_of_mod_eq heq.symm
  rw [Nat.add_sub_cancel_left, Nat.mod_eq_of_lt hm] at hone
  exact Nat.one_ne_zero hone

theorem pairwise_concat {l : List Nat} {n : Nat} (h : l.Pairwise (· ≤ ·)) (hn : ∀ a ∈ l, a ≤ n) :
    (l ++ [n]).Pairwise (· ≤ ·) := by
  rw [List.pairwise_append]
  exact ⟨h, List.pairwise_singleton _ _,
    fun a ha b hb => by rw [List.mem_singleton.mp hb]; exact hn a ha⟩

/-- What is behind the head of an ordered list -/
theorem le_of_head? {l : List Nat} {a b : Nat} (h : l.Pairwise (· ≤ ·)) (ha : l.head? = some a)
    (hb : b ∈ l) : a ≤ b := by
  cases l with
  | nil => cases hb
  | cons c l =>
    obtain rfl : c = a := Option.some.inj ha
    rcases List.mem_cons.mp hb with rfl | hb
    · exact Nat.le_refl _
    · exact List.rel_of_pairwise_cons h hb

/-- **A block that has the number of the next one is the next one**, and it is the one that is
sent. -/
theorem Inv.is_next (hm : 2 ≤ m) (h : s.Inv) {d : Nat} (hd : s.data.head? = some d)
    (hnumber : d % m = s.next % m) :
    d = s.next ∧ s.next = s.sent := by
  have hmem : d ∈ s.data := List.mem_of_mem_head? hd
  rcases h.next with hnext | hnext
  · rcases h.data d hmem with rfl | hbefore
    · exact ⟨hnext.symm, hnext⟩
    · rw [hnext, ← hbefore] at hnumber
      exact absurd hnumber (mod_ne_succ hm d)
  · rw [h.received hnext d hmem, hnext] at hnumber
    exact absurd hnumber (mod_ne_succ hm s.sent)

/-- **An acknowledgement with the number of the block is that of the block.** -/
theorem Inv.is_acked (hm : 2 ≤ m) (h : s.Inv) {a : Nat} (ha : s.acks.head? = some a)
    (hnumber : a % m = s.sent % m) :
    a = s.sent ∧ s.next = s.sent + 1 := by
  have hmem : a ∈ s.acks := List.mem_of_mem_head? ha
  have hne : a + 1 ≠ s.sent := by
    intro hbefore
    rw [← hbefore] at hnumber
    exact mod_ne_succ hm a hnumber
  exact ⟨(h.acks a hmem).resolve_right hne,
    h.next.resolve_left fun hnext => hne (h.waiting hnext a hmem)⟩

/-- **Each step keeps the invariant.** -/
theorem Inv.step (hm : 2 ≤ m) (h : s.Inv) (hstep : Step m s s') : s'.Inv := by
  cases hstep with
  | lose hdata hacks =>
    exact ⟨h.next, fun d hd => h.data d (hdata.mem hd), fun a ha => h.acks a (hacks.mem ha),
      h.dataOrder.sublist hdata,
      h.acksOrder.sublist hacks, fun hnext d hd => h.received hnext d (hdata.mem hd),
      fun hnext a ha => h.waiting hnext a (hacks.mem ha)⟩
  | send =>
    have hmem : ∀ d ∈ s.data ++ [s.sent], d ∈ s.data ∨ d = s.sent := fun d hd =>
      (List.mem_append.mp hd).imp_right List.mem_singleton.mp
    refine ⟨h.next, fun d hd => ?_, h.acks, pairwise_concat h.dataOrder fun d hd => ?_,
      h.acksOrder, fun hnext d hd => ?_,
      h.waiting⟩
    · exact (hmem d hd).elim (h.data d) .inl
    · have := h.data d hd
      omega
    · exact (hmem d hd).elim (h.received hnext d) id
  | acked ha hnumber =>
    obtain ⟨rfl, hnext⟩ := h.is_acked hm ha hnumber
    have hacks : ∀ a ∈ s.acks, a = s.sent := by
      intro a hmem
      have hle := le_of_head? h.acksOrder ha hmem
      have := h.acks a hmem
      omega
    have hdata := h.received hnext
    refine ⟨.inl hnext, fun d hd => ?_, fun a hmem => .inr (by rw [hacks a hmem]),
      pairwise_concat h.dataOrder fun d hd => ?_, h.acksOrder, fun hlate => ?_, fun _ a hmem =>
        by rw [hacks a hmem]⟩
    · rcases List.mem_append.mp hd with hd | hd
      · exact .inr (by rw [hdata d hd])
      · exact .inl (List.mem_singleton.mp hd)
    · rw [hdata d hd]
      exact Nat.le_succ _
    · have hlate : s.next = s.sent + 1 + 1 := hlate
      omega
  | received hd hnumber =>
    obtain ⟨rfl, hnext⟩ := h.is_next hm hd hnumber
    have hdata : ∀ d ∈ s.data, d = s.sent := by
      intro d hmem
      have hle := le_of_head? h.dataOrder hd hmem
      have := h.data d hmem
      omega
    have hacks := h.waiting hnext
    refine ⟨.inr (by rw [hnext]), h.data, fun a ha => ?_, h.dataOrder,
      pairwise_concat h.acksOrder fun a ha => ?_,
      fun _ => hdata, fun hlate => ?_⟩
    · rcases List.mem_append.mp ha with ha | ha
      · exact .inr (hacks a ha)
      · rw [List.mem_singleton.mp ha]
        exact .inl hnext
    · have := hacks a ha
      omega
    · have hlate : s.next + 1 = s.sent := hlate
      omega
  | @again a ha =>
    have hnext := h.next
    have hlast : a = s.sent ∨ a + 1 = s.sent := by omega
    refine ⟨hnext, h.data, fun b hb => ?_, h.dataOrder, pairwise_concat h.acksOrder fun b hb => ?_,
      h.received,
      fun heq b hb => ?_⟩
    · rcases List.mem_append.mp hb with hb | hb
      · exact h.acks b hb
      · rw [List.mem_singleton.mp hb]
        exact hlast
    · have hbefore := h.acks b hb
      rcases hnext with heq | heq
      · have := h.waiting heq b hb
        omega
      · omega
    · rcases List.mem_append.mp hb with hb | hb
      · exact h.waiting heq b hb
      · rw [List.mem_singleton.mp hb]
        exact ha.trans heq

end StopAndWait

end MlibDevel.Lib
