import Mathlib.Order.Lattice

/-!
# A four-phase handshake between two clocks

The near side raises a request, the far side acknowledges it, the near side drops the request and
the far side its acknowledgement.  Each signal passes two flip-flops of the other clock, taken as
plain delays.

Whatever the order of the edges, a change runs through the six flip-flops one after another:
behind it they have their new value, in front of it the old one (`InPhase`).
-/

namespace MlibDevel.Lib

/-- The request, the acknowledgement, and the flip-flops that carry them to the other side. -/
structure Handshake where
  request : Bool
  requestR : Bool
  requestRR : Bool
  ack : Bool
  ackR : Bool
  ackRR : Bool
  deriving DecidableEq, Repr

namespace Handshake

/-- Nothing is going on. -/
def rest : Handshake := ⟨false, false, false, false, false, false⟩

/-- An edge of the near clock, with a new value for the request. -/
def nearEdge (h : Handshake) (request : Bool) : Handshake :=
  { h with request, ackR := h.ack, ackRR := h.ackR }

/-- An edge of the far clock; the acknowledgement follows the request. -/
def farEdge (h : Handshake) : Handshake :=
  { h with requestR := h.request, requestRR := h.requestR, ack := h.requestRR }

/-- A request is on its way: no flip-flop is set before the one in front of it. -/
structure Rising (h : Handshake) : Prop where
  requestR : h.requestR = true → h.request = true
  requestRR : h.requestRR = true → h.requestR = true
  ack : h.ack = true → h.requestRR = true
  ackR : h.ackR = true → h.ack = true
  ackRR : h.ackRR = true → h.ackR = true

/-- The end of a request is on its way: no flip-flop is clear before the one in front of it. -/
structure Falling (h : Handshake) : Prop where
  requestR : h.request = true → h.requestR = true
  requestRR : h.requestR = true → h.requestRR = true
  ack : h.requestRR = true → h.ack = true
  ackR : h.ack = true → h.ackR = true
  ackRR : h.ackR = true → h.ackRR = true

/-- Just one change is on its way. -/
def InPhase (h : Handshake) : Prop := h.Rising ∨ h.Falling

theorem clear_of_imp {a b : Bool} (h : a = true → b = true) (hb : b = false) : a = false :=
  Bool.eq_false_iff.mpr fun ha => Bool.eq_false_iff.mp hb (h ha)

theorem imp_of_clear {a b : Bool} (h : a = false) (ha : a = true) : b = true :=
  absurd ha (Bool.eq_false_iff.mp h)

theorem rest_inPhase : rest.InPhase := by
  refine Or.inl ⟨?_, ?_, ?_, ?_, ?_⟩ <;> exact id

/-- The far side keeps the handshake in phase. -/
theorem InPhase.farEdge {h : Handshake} (hp : h.InPhase) : h.farEdge.InPhase := by
  rcases hp with hr | hf
  · exact Or.inl ⟨id, hr.requestR, hr.requestRR, fun ha => hr.ack (hr.ackR ha), hr.ackRR⟩
  · exact Or.inr ⟨id, hf.requestR, hf.requestRR, fun ha => hf.ackR (hf.ack ha), hf.ackRR⟩

/--
The near side keeps it in phase if it raises no request while the acknowledgement is up, and drops
none before.
-/
theorem InPhase.nearEdge {h : Handshake} (hp : h.InPhase) {request : Bool}
    (hraise : h.ackRR = true → request = false)
    (hhold : h.ackRR = false → h.request = true → request = true) :
    (h.nearEdge request).InPhase := by
  rcases hp with hr | hf
  · cases hRR : h.ackRR with
    | true =>
      -- all six are set, and the request falls
      have hR := hr.ackRR hRR
      have hack := hr.ackR hR
      have hreqRR := hr.ack hack
      have hreqR := hr.requestRR hreqRR
      refine Or.inr ⟨?_, fun _ => hreqRR, fun _ => hack, fun _ => hack, fun _ => hR⟩
      intro hreq
      rw [hraise hRR] at hreq
      cases hreq
    | false =>
      refine Or.inl ⟨?_, hr.requestRR, hr.ack, id, fun hR => hr.ackR hR⟩
      intro hreqR
      exact hhold hRR (hr.requestR hreqR)
  · cases hRR : h.ackRR with
    | true =>
      refine Or.inr ⟨?_, hf.requestRR, hf.ack, id, fun hR => hf.ackR hR⟩
      intro hreq
      rw [hraise hRR] at hreq
      cases hreq
    | false =>
      -- all six are clear, and the request may rise
      have hR := clear_of_imp hf.ackRR hRR
      have hack := clear_of_imp hf.ackR hR
      have hreqRR := clear_of_imp hf.ack hack
      have hreqR := clear_of_imp hf.requestRR hreqRR
      exact Or.inl ⟨imp_of_clear hreqR, imp_of_clear hreqRR, imp_of_clear hack, id,
        imp_of_clear hR⟩

/-- The near side sees an acknowledgement of its request only while the far side stands still. -/
theorem InPhase.settled {h : Handshake} (hp : h.InPhase) (hreq : h.request = true)
    (hRR : h.ackRR = true) :
    h.requestR = true ∧ h.requestRR = true ∧ h.ack = true ∧ h.ackR = true := by
  rcases hp with hr | hf
  · have hR := hr.ackRR hRR
    have hack := hr.ackR hR
    have hreqRR := hr.ack hack
    exact ⟨hr.requestRR hreqRR, hreqRR, hack, hR⟩
  · have hreqR := hf.requestR hreq
    have hreqRR := hf.requestRR hreqR
    have hack := hf.ack hreqRR
    exact ⟨hreqR, hreqRR, hack, hf.ackR hack⟩

/-- An acknowledgement of a request that the far side no longer sees: the request is over. -/
theorem InPhase.over {h : Handshake} (hp : h.InPhase) (hRR : h.ackRR = true)
    (hreqRR : h.requestRR = false) : h.request = false ∧ h.requestR = false := by
  rcases hp with hr | hf
  · rw [hr.ack (hr.ackR (hr.ackRR hRR))] at hreqRR
    cases hreqRR
  · have hreqR := clear_of_imp hf.requestRR hreqRR
    exact ⟨clear_of_imp hf.requestR hreqR, hreqR⟩

end Handshake

end MlibDevel.Lib
